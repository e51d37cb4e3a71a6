/-
# A request from a client to a server

`HTTPv1_Client::initProtocol` (`Protocol_HTTP/httpv1_client.cpp`) writes a request line, headers and
a body; the server of `HttpConnection` reads them.  What the caller of the client has asked for is
what `procHTTPClientContent` is called with.

* `HTTPv1ClientRequest.initProtocol` — what the client writes;
* `Deliverable` — what a caller may ask for;
* `ofText_requestLine`, `value_plain`, `getOptionByName_headersToStream` — the parts come back;
* `Arrived` — the server has what the caller asked for;
* `request_arrives` — from one end to the other.

The client does not encode the path, so that it has to be one word.  `Host` is read in front of its
first colon.  The body is streamed as it is, as the client does unless it is told otherwise.
-/
import Mantids.HeaderRoundTrip
import Mantids.HttpRequest
import Mantids.RequestQuery
import Mantids.SubValues

namespace Mantids

open Occurrence URLVars UrlStrings

/-! ## The client -/

/-- `HTTP::Version::toString`. -/
def HttpVersion.toText (v : HttpVersion) : List UInt8 :=
  bytesOf "HTTP/" ++ decimal v.majorVersion ++ 46 :: decimal v.minorVersion

/-- `HTTP::Content::getStreamSize`, unless it is the largest number. -/
def getStreamSize (content : BChunks) : Option ℕ :=
  if content.size = 2 ^ 64 - 1 then none else some content.size

/-- What `initProtocol` writes of an `HTTPv1_Client`. -/
structure HTTPv1ClientRequest extends HTTPv1Client where
  requestMethod : List UInt8 := bytesOf "GET"
  requestURI : List UInt8 := []
  /-- `m_getVars`. -/
  getVars : Variables := []
  httpVersion : HttpVersion := {}
  /-- `clientRequest.content`, in the container of bytes. -/
  content : BChunks := {}
  streamSize := getStreamSize content
  counted : content.Counted
  streamSize_eq : streamSize = getStreamSize content

namespace HTTPv1ClientRequest

variable (tags : ℕ → List UInt8) (c : HTTPv1ClientRequest)

/-- The variables behind the path. -/
def queryText : Option (List UInt8) :=
  if c.getVars = [] then some [] else (streamTo true c.getVars).map (63 :: ·)

/-- `RequestLine::streamToUpstream`: what is written, unless the variables fail. -/
def requestLineText : Option (List UInt8) :=
  c.queryText.map fun query =>
    c.requestMethod ++ [32] ++ c.requestURI ++ query ++ [32] ++ c.httpVersion.toText ++ [13, 10]

/-- `initProtocol`: what is written, if it succeeds. -/
def initProtocol : Option (List UInt8) :=
  c.requestLineText.bind fun line =>
    (c.streamClientHeaders tags).map fun headers => line ++ headers ++ c.content.pieces.flatten

/-- The host and the port that are written. -/
def hostSent : List UInt8 × ℕ :=
  if c.virtualHost = [] then ([], 80) else (c.virtualHost, c.virtualPort.toNat)

/-- The text of the variables. -/
def parameters : List UInt8 := (streamTo true c.getVars).getD []

end HTTPv1ClientRequest

/-! ## The request line -/

/-- A word of the request line. -/
def IsWord (s : List UInt8) : Prop := ∀ x ∈ s, x ≠ 9 ∧ x ≠ 10 ∧ x ≠ 13 ∧ x ≠ 32

instance (s : List UInt8) : Decidable (IsWord s) :=
  List.decidableBAll (fun x => x ≠ 9 ∧ x ≠ 10 ∧ x ≠ 13 ∧ x ≠ 32) s

theorem IsWord.append {s t : List UInt8} (hs : IsWord s) (ht : IsWord t) : IsWord (s ++ t) := by
  intro x hx
  rcases List.mem_append.mp hx with h | h
  · exact hs x h
  · exact ht x h

theorem isWord_of_le {s : List UInt8} (h : ∀ x ∈ s, 37 ≤ x) : IsWord s := by
  intro x hx
  have hle := h x hx
  refine ⟨?_, ?_, ?_, ?_⟩ <;> rintro rfl <;> exact absurd hle (by decide)

/-- There is no separator in a word. -/
theorem IsWord.not_blank {s : List UInt8} (hs : IsWord s) :
    ∀ x ∈ s, decide (x = 9 ∨ x = 32) = false := by
  intro x hx
  have hx' := hs x hx
  simp [hx'.1, hx'.2.2.2]

/-- A text with one separator is cut into two. -/
theorem splitCompress_pair {p : UInt8 → Bool} {s t : List UInt8} {c : UInt8}
    (hs : ∀ x ∈ s, p x = false) (hc : p c = true) (ht : ∀ x ∈ t, p x = false) (hne : t ≠ []) :
    splitCompress p (s ++ c :: t) = [s, t] := by
  have hjoin := @splitCompress_join p s [(c, t)] hs
    (List.forall_mem_singleton.mpr ⟨hc, ht⟩) (by simpa using hne)
  simpa [joined, hne] using hjoin

/-- The words of a line are cut out of it. -/
theorem splitCompress_words {s t u : List UInt8} (hs : IsWord s) (ht : IsWord t) (hu : IsWord u)
    (htne : t ≠ []) (hune : u ≠ []) :
    splitCompress (fun c => c = 9 ∨ c = 32) (s ++ 32 :: (t ++ 32 :: u)) = [s, t, u] := by
  have hjoin := @splitCompress_join (fun c => decide (c = 9 ∨ c = 32)) s [(32, t), (32, u)]
    hs.not_blank
    (List.forall_mem_cons.mpr ⟨⟨rfl, ht.not_blank⟩,
      List.forall_mem_singleton.mpr ⟨rfl, hu.not_blank⟩⟩)
    (by simpa using hune)
  simpa [joined, htne, hune] using hjoin

/-- No digit is a separator. -/
theorem ne_of_mem_decimal {d : UInt8} (hd : isdigit d = false) (n : ℕ) :
    ∀ x ∈ decimal n, decide (x = d) = false := by
  intro x hx
  have hdigit := isdigit_of_mem_decimal n x hx
  rw [decide_eq_false_iff_not]
  rintro rfl
  rw [hd] at hdigit
  cases hdigit

/-- A version that was written is read back. -/
theorem HttpVersion.parse_toText {v : HttpVersion} (hmajor : v.majorVersion < 2 ^ 16)
    (hminor : v.minorVersion < 2 ^ 16) : HttpVersion.parse v.toText = v := by
  have hnumbers : ∀ x ∈ decimal v.majorVersion ++ 46 :: decimal v.minorVersion,
      decide (x = 47) = false := by
    intro x hx
    rcases List.mem_append.mp hx with h | h
    · exact ne_of_mem_decimal rfl _ x h
    · rcases List.mem_cons.mp h with rfl | h
      · rfl
      · exact ne_of_mem_decimal rfl _ x h
  have hslash : splitCompress (· = 47) v.toText =
      [bytesOf "HTTP", decimal v.majorVersion ++ 46 :: decimal v.minorVersion] := by
    have htext : v.toText =
        bytesOf "HTTP" ++ 47 :: (decimal v.majorVersion ++ 46 :: decimal v.minorVersion) := by
      rw [HttpVersion.toText, show bytesOf "HTTP/" = bytesOf "HTTP" ++ [47] by decide,
        List.append_assoc, List.append_assoc]
      rfl
    have hword : (47 : UInt8) ∉ bytesOf "HTTP" := by decide
    have hname : ∀ x ∈ bytesOf "HTTP", decide (x = 47) = false :=
      fun x hx => decide_eq_false fun heq => hword (heq ▸ hx)
    rw [htext]
    exact splitCompress_pair hname rfl hnumbers (by simp)
  have hdot : splitCompress (· = 46) (decimal v.majorVersion ++ 46 :: decimal v.minorVersion) =
      [decimal v.majorVersion, decimal v.minorVersion] :=
    splitCompress_pair (ne_of_mem_decimal rfl _) rfl (ne_of_mem_decimal rfl _) (decimal_ne_nil _)
  unfold HttpVersion.parse
  simp only [hslash, hdot]
  rw [strtoull_decimal (by omega), strtoull_decimal (by omega), Nat.mod_eq_of_lt hmajor,
    Nat.mod_eq_of_lt hminor]

/-- What the encoder writes is a word. -/
theorem le_of_mem_encode (s : List UInt8) : ∀ x ∈ encode s, 37 ≤ x := by
  have hdigit : ∀ n < 16, 37 ≤ hexDigit n := by decide
  intro x hx
  obtain ⟨c, -, hc⟩ := List.mem_flatMap.mp hx
  unfold encodeByte at hc
  split at hc
  · rename_i halnum
    obtain rfl := List.mem_singleton.mp hc
    by_contra hlt
    simp only [isalnum, isalpha] at halnum
    grind
  · have hlt := c.toNat_lt
    simp only [List.mem_cons, List.not_mem_nil, or_false] at hc
    rcases hc with rfl | rfl | rfl
    · decide
    · exact hdigit _ (by omega)
    · exact hdigit _ (by omega)

theorem EncoderURL.le_of_mem_transform {ds : List (List UInt8)} {e : List UInt8}
    (h : transform ds = some e) : ∀ x ∈ e, 37 ≤ x := by
  induction ds generalizing e with
  | nil =>
      obtain rfl := Option.some.inj h
      exact fun x hx => absurd hx List.not_mem_nil
  | cons d ds ih =>
      obtain ⟨e₁, hwrite, hrest⟩ := Option.bind_eq_some_iff.mp h
      obtain ⟨e₂, he₂, rfl⟩ := Option.map_eq_some_iff.mp hrest
      intro x hx
      rcases List.mem_append.mp hx with h₁ | h₂
      · unfold writeTo at hwrite
        split at hwrite
        · cases hwrite
        · obtain rfl := Option.some.inj hwrite
          exact le_of_mem_encode d x h₁
      · exact ih he₂ x h₂

/-- The variables are written as a word. -/
theorem URLVars.le_of_mem_streamTo {firstVar : Bool} {vars : Variables} {q : List UInt8}
    (h : streamTo firstVar vars = some q) : ∀ x ∈ q, 37 ≤ x := by
  induction vars generalizing firstVar q with
  | nil =>
      obtain rfl := Option.some.inj h
      exact fun x hx => absurd hx List.not_mem_nil
  | cons e vars ih =>
      obtain ⟨k, v⟩ := e
      rw [streamTo] at h
      split at h
      · cases h
      · split at h
        · rename_i name value rest hname hvalue hrest
          obtain rfl := Option.some.inj h
          have hvalue' : ∀ x ∈ value, 37 ≤ x := by
            split at hvalue
            · obtain ⟨t, ht, rfl⟩ := Option.map_eq_some_iff.mp hvalue
              intro x hx
              rcases List.mem_cons.mp hx with rfl | hx
              · decide
              · exact EncoderURL.le_of_mem_transform ht x hx
            · obtain rfl := Option.some.inj hvalue
              exact fun x hx => absurd hx List.not_mem_nil
          intro x hx
          simp only [List.mem_append] at hx
          rcases hx with ((hx | hx) | hx) | hx
          · split at hx
            · cases hx
            · obtain rfl := List.mem_singleton.mp hx
              decide
          · exact EncoderURL.le_of_mem_transform hname x hx
          · exact hvalue' x hx
          · exact ih hrest x hx
        · cases h

namespace HTTPv1ClientRequest

variable {c : HTTPv1ClientRequest}

/-- The variables that are written are those of the request, behind a question mark if there are
any. -/
theorem queryText_eq {query : List UInt8} (h : c.queryText = some query) :
    (∀ x ∈ c.parameters, 37 ≤ x) ∧
      ((query = [] ∧ c.parameters = []) ∨ query = 63 :: c.parameters) := by
  unfold queryText at h
  split at h
  · rename_i hnone
    obtain rfl := Option.some.inj h
    have hempty : c.parameters = [] := by
      rw [parameters, hnone]
      rfl
    rw [hempty]
    exact ⟨fun x hx => absurd hx List.not_mem_nil, Or.inl ⟨rfl, rfl⟩⟩
  · obtain ⟨q, hq, rfl⟩ := Option.map_eq_some_iff.mp h
    have hparameters : c.parameters = q := by rw [parameters, hq, Option.getD_some]
    rw [hparameters]
    exact ⟨le_of_mem_streamTo hq, Or.inr rfl⟩

/-- The line that the server reads, without its line break. -/
def requestLine (c : HTTPv1ClientRequest) (query : List UInt8) : List UInt8 :=
  c.requestMethod ++ 32 :: (c.requestURI ++ query ++ 32 :: c.httpVersion.toText)

theorem isWord_toText (v : HttpVersion) : IsWord v.toText := by
  have hdecimal : ∀ n, ∀ x ∈ decimal n, 37 ≤ x := fun n x hx =>
    UInt8.le_trans (by decide) (le_of_mem_decimal n x hx)
  apply isWord_of_le
  intro x hx
  rw [HttpVersion.toText, List.mem_append, List.mem_append, List.mem_cons] at hx
  rcases hx with (hx | hx) | rfl | hx
  · have hname : (bytesOf "HTTP/").all (37 ≤ ·) = true := by decide
    exact of_decide_eq_true (List.all_eq_true.mp hname x hx)
  · exact hdecimal _ x hx
  · decide
  · exact hdecimal _ x hx

theorem isWord_of_queryText {query : List UInt8} (hquery : c.queryText = some query) :
    IsWord query := by
  obtain ⟨hle, ⟨rfl, -⟩ | rfl⟩ := queryText_eq hquery
  · exact fun x hx => absurd hx List.not_mem_nil
  · apply isWord_of_le
    rw [List.forall_mem_cons]
    exact ⟨by decide, hle⟩

/-- A request line comes back: the path, the variables and the version as they were written, and the
method in capitals. -/
theorem ofText_requestLine (hmethod : IsWord c.requestMethod) (huri : IsWord c.requestURI)
    (hne : c.requestURI ≠ []) (hmark : 63 ∉ c.requestURI)
    (hmajor : c.httpVersion.majorVersion < 2 ^ 16) (hminor : c.httpVersion.minorVersion < 2 ^ 16)
    {query : List UInt8} (hquery : c.queryText = some query) :
    RequestLine.ofText {} (c.requestLine query) =
      some ⟨toUpperBytes c.requestMethod, c.requestURI, c.parameters, c.httpVersion⟩ := by
  obtain ⟨hle, hcases⟩ := queryText_eq hquery
  have hword := isWord_of_queryText hquery
  have hversion : c.httpVersion.toText ≠ [] := by simp [HttpVersion.toText]
  have hsplit := splitCompress_words hmethod (huri.append hword) (isWord_toText c.httpVersion)
    (List.append_ne_nil_of_left_ne_nil hne query) hversion
  unfold RequestLine.ofText requestLine
  rw [hsplit]
  simp only [List.headD_cons, HttpVersion.parse_toText hmajor hminor]
  unfold RequestLine.parseURI
  rcases hcases with ⟨rfl, hempty⟩ | rfl
  · simp only [List.append_nil, if_neg hmark, hempty]
  · have hzero : c.parameters.takeWhile (· ≠ 0) = c.parameters :=
      Cut.takeWhile_ne_eq_self_iff.mpr fun h0 => absurd (hle 0 h0) (by decide)
    have hfound : (63 : UInt8) ∈ c.requestURI ++ 63 :: c.parameters := by simp
    simp only [if_pos hfound, Cut.takeWhile_ne_append hmark, Cut.drop_dropWhile_ne_append hmark,
      hzero]

end HTTPv1ClientRequest

/-! ## The headers -/

namespace MimeHeaderOption

/-- A text that is a value as it is. -/
structure IsPlain (s : List UInt8) : Prop where
  quote : 34 ∉ s
  semicolon : 59 ∉ s
  zero : 0 ∉ s
  trimmed : Trimmed s

/-- The value of a plain text. -/
theorem value_plain (opt : MimeHeaderOption) (tag : List UInt8) {s : List UInt8} (hs : IsPlain s) :
    (opt.parseSubValues tag s).value = s := by
  have htrim : trimBytes s = s := hs.trimmed
  have hnone : quoted s = none := by
    have hquote : 34 ∉ (s.dropWhile (· ≠ 34)).drop 1 := fun hmem =>
      hs.quote ((List.dropWhile_suffix _).subset (List.drop_subset _ _ hmem))
    rw [quoted, if_neg hquote]
  have htake : takeStaticTexts tag (trimBytes s).length [] (trimBytes s) = ([], s) := by
    rw [htrim]
    cases s.length with
    | zero => rfl
    | succ fuel => rw [takeStaticTexts, hnone]
  have hsplit : splitCompress (· = 59) s = [s] := by
    have hfree : ∀ x ∈ s, decide (x = 59) = false := fun x hx =>
      decide_eq_false fun heq => hs.semicolon (heq ▸ hx)
    rw [splitCompress, List.splitOnP_eq_singleton hfree]
  rw [SubValues.parseSubValues_eq htake hsplit]
  show trimBytes (putStaticTexts tag [] (trimBytes s)) = s
  rw [htrim]
  exact htrim

theorem isPlain_decimal (n : ℕ) : IsPlain (decimal n) where
  quote hmem := absurd (isdigit_of_mem_decimal n 34 hmem) (by decide)
  semicolon hmem := absurd (isdigit_of_mem_decimal n 59 hmem) (by decide)
  zero hmem := absurd (isdigit_of_mem_decimal n 0 hmem) (by decide)
  trimmed := trimmed_decimal n

/-- The value that a reader has of an option whose text is plain. -/
theorem value_received {opt : MimeHeaderOption} (hs : IsPlain opt.origValue) (tag : List UInt8) :
    (opt.received tag).value = opt.origValue := by
  rw [received, Cut.takeWhile_ne_eq_self_iff.mpr hs.zero]
  exact value_plain _ _ hs

end MimeHeaderOption

namespace MimeSubHeader

open MimeHeaderOption

variable (tags : ℕ → List UInt8) {h : MimeSubHeader}

/-- What is received of an option: its text up to a zero byte. -/
theorem entry_received_cut (opt : MimeHeaderOption) (tag : List UInt8) :
    entry (opt.received tag) =
      ((entry opt).1, (entry opt).2.1, (entry opt).2.2.takeWhile (· ≠ 0)) := by
  unfold entry
  rw [getUpperName_received, received, (origName_parseSubValues ..).1,
    (origName_parseSubValues ..).2]

theorem length_remove_le (h : MimeSubHeader) (optionName : List UInt8) :
    (h.remove optionName).headers.length ≤ h.headers.length := List.length_filter_le _ _

theorem length_add_le (h : MimeSubHeader) (optionName optionValue : List UInt8) :
    (h.add tags optionName optionValue).1.headers.length ≤ h.headers.length + 1 := by
  unfold add
  split
  · exact Nat.le_succ _
  · exact le_of_eq List.length_append

theorem length_replace_le (h : MimeSubHeader) (optionName optionValue : List UInt8) :
    (h.replace tags optionName optionValue).headers.length ≤ h.headers.length + 1 :=
  (length_add_le tags _ _ _).trans (Nat.succ_le_succ (length_remove_le h optionName))

/-- What stands under a name after `replace`, if there is room. -/
theorem getOptionByName_replace_self (hroom : h.headers.length < h.maxOptions)
    (optionName optionValue : List UInt8) :
    ∃ tag, (h.replace tags optionName optionValue).getOptionByName optionName =
      some (({ origName := optionName } : MimeHeaderOption).parseSubValues tag optionValue) := by
  have hremoved : (h.remove optionName).headers.length < (h.remove optionName).maxOptions :=
    (length_remove_le h optionName).trans_lt hroom
  refine ⟨tags h.drawn, ?_⟩
  have hnone : ((h.remove optionName).headers.map (·.2)).find?
      (fun opt => opt.getUpperName = toUpperBytes optionName) = none := by
    rw [List.find?_eq_none]
    intro opt hopt
    obtain ⟨o, ho, rfl⟩ := List.mem_map.mp hopt
    have hkept := List.of_mem_filter ho
    simpa using hkept
  rw [replace, add_of_room tags hremoved, getOptionByName, List.map_append, List.find?_append,
    hnone, Option.none_or, List.map_singleton, List.find?_singleton, getUpperName,
    (origName_parseSubValues ..).1]
  simp only [decide_true, if_true]
  rfl

end MimeSubHeader

namespace HTTPv1Client

open MimeSubHeader MimeHeaderOption

variable {c : HTTPv1Client} (tags : ℕ → List UInt8)

/-- There is room for the options of the client. -/
def HasRoom (c : HTTPv1Client) : Prop := c.headers.headers.length + 5 ≤ c.headers.maxOptions

/-- Options that the client does not write are those of the caller. -/
theorem getOptionByName_headersToStream (strsize : ℕ) {name : List UInt8}
    (hne : ∀ own ∈ ["Connetion", "Content-Length", "Cookie", "Authentication", "User-Agent",
      "Host"], toUpperBytes name ≠ toUpperBytes (bytesOf own)) :
    (c.headersToStream tags strsize).getOptionByName name = c.headers.getOptionByName name := by
  simp only [List.forall_mem_cons] at hne
  obtain ⟨h₁, h₂, h₃, h₄, h₅, h₆, -⟩ := hne
  unfold headersToStream
  simp only
  split_ifs <;>
    simp only [getOptionByName_replace tags h₆, getOptionByName_replace tags h₅,
      getOptionByName_replace tags h₄, getOptionByName_add tags h₃, getOptionByName_replace tags h₂,
      getOptionByName_remove h₁]

/-- The length of the body is among the options. -/
theorem contentLength_headersToStream (hroom : c.HasRoom) (strsize : ℕ) :
    ∃ tag, (c.headersToStream tags strsize).getOptionByName (bytesOf "Content-Length") =
      some (({ origName := bytesOf "Content-Length" } : MimeHeaderOption).parseSubValues tag
        (decimal strsize)) := by
  have hless : (c.headers.remove (bytesOf "Connetion")).headers.length <
      (c.headers.remove (bytesOf "Connetion")).maxOptions := by
    have hle := length_remove_le c.headers (bytesOf "Connetion")
    unfold HasRoom at hroom
    rw [maxOptions_remove]
    omega
  obtain ⟨tag, htag⟩ := getOptionByName_replace_self tags hless (bytesOf "Content-Length")
    (decimal strsize)
  refine ⟨tag, ?_⟩
  rw [← htag]
  unfold headersToStream
  simp only
  split_ifs <;>
    simp only [getOptionByName_replace tags (show toUpperBytes (bytesOf "Content-Length") ≠
        toUpperBytes (bytesOf "Host") by decide),
      getOptionByName_replace tags (show toUpperBytes (bytesOf "Content-Length") ≠
        toUpperBytes (bytesOf "User-Agent") by decide),
      getOptionByName_replace tags (show toUpperBytes (bytesOf "Content-Length") ≠
        toUpperBytes (bytesOf "Authentication") by decide),
      getOptionByName_add tags (show toUpperBytes (bytesOf "Content-Length") ≠
        toUpperBytes (bytesOf "Cookie") by decide)]

/-- So is the host, if there is one. -/
theorem host_headersToStream (hroom : c.HasRoom) (hhost : c.virtualHost ≠ []) (strsize : ℕ) :
    ∃ tag, (c.headersToStream tags strsize).getOptionByName (bytesOf "Host") =
      some (({ origName := bytesOf "Host" } : MimeHeaderOption).parseSubValues tag c.hostText) := by
  unfold HasRoom at hroom
  unfold headersToStream
  simp only [if_neg hhost]
  apply getOptionByName_replace_self
  have hremoved := length_remove_le c.headers (bytesOf "Connetion")
  generalize hmax : c.headers.maxOptions = maxOptions at hroom
  have hmax' : (c.headers.remove (bytesOf "Connetion")).maxOptions = maxOptions := hmax
  generalize c.headers.remove (bytesOf "Connetion") = removed at hremoved hmax' ⊢
  have hsized := length_replace_le tags removed (bytesOf "Content-Length") (decimal strsize)
  have hcookie := length_add_le tags (removed.replace tags (bytesOf "Content-Length")
    (decimal strsize)) (bytesOf "Cookie") c.cookiesText
  have hagent := fun h : MimeSubHeader => length_replace_le tags h (bytesOf "User-Agent")
    c.userAgent
  refine (hagent _).trans_lt ?_
  rw [maxOptions_replace]
  split_ifs
  · have hauth := fun h : MimeSubHeader => length_replace_le tags h (bytesOf "Authentication")
      c.authenticationText
    refine (Nat.succ_le_succ (hauth _)).trans_lt ?_
    simp only [maxOptions_replace, maxOptions_add, hmax']
    omega
  · simp only [maxOptions_replace, maxOptions_add, hmax']
    omega

/-- Without a host the header is the caller's. -/
theorem host_headersToStream_nil (hhost : c.virtualHost = []) (strsize : ℕ) :
    (c.headersToStream tags strsize).getOptionByName (bytesOf "Host") =
      c.headers.getOptionByName (bytesOf "Host") := by
  unfold headersToStream
  simp only [if_pos hhost]
  split_ifs <;>
    simp only [getOptionByName_replace tags (show toUpperBytes (bytesOf "Host") ≠
        toUpperBytes (bytesOf "User-Agent") by decide),
      getOptionByName_replace tags (show toUpperBytes (bytesOf "Host") ≠
        toUpperBytes (bytesOf "Authentication") by decide),
      getOptionByName_add tags (show toUpperBytes (bytesOf "Host") ≠
        toUpperBytes (bytesOf "Cookie") by decide),
      getOptionByName_replace tags (show toUpperBytes (bytesOf "Host") ≠
        toUpperBytes (bytesOf "Content-Length") by decide),
      getOptionByName_remove (show toUpperBytes (bytesOf "Host") ≠
        toUpperBytes (bytesOf "Connetion") by decide)]

end HTTPv1Client

/-! ## The host -/

open MimeHeaderOption in
/-- The text of the header is a value as it is. -/
theorem HTTPv1Client.isPlain_hostText {c : HTTPv1Client} (hhost : c.virtualHost ≠ [])
    (hplain : IsPlain c.virtualHost) : IsPlain c.hostText := by
  have hdecimal : ∀ d : UInt8, isdigit d = false → d ∉ decimal c.virtualPort.toNat := by
    intro d hd hmem
    have hdigit := isdigit_of_mem_decimal _ d hmem
    rw [hd] at hdigit
    cases hdigit
  have hfree : ∀ d : UInt8, d ∉ c.virtualHost → isdigit d = false → d ≠ 58 → d ∉ c.hostText := by
    intro d hd hdigit hcolon hmem
    unfold HTTPv1Client.hostText at hmem
    split at hmem
    · exact hd (by simpa using hmem)
    · rw [List.mem_append, List.singleton_append, List.mem_cons] at hmem
      rcases hmem with h | h | h
      · exact hd h
      · exact hcolon h
      · exact hdecimal d hdigit h
  refine ⟨hfree 34 hplain.quote rfl (by decide), hfree 59 hplain.semicolon rfl (by decide),
    hfree 0 hplain.zero rfl (by decide), ?_⟩
  obtain ⟨hhead, hlast⟩ := hplain.trimmed.ends
  apply trimBytes_eq_self
  · intro x hx
    apply hhead x
    obtain ⟨y, ys, hcons⟩ := List.exists_cons_of_ne_nil hhost
    unfold HTTPv1Client.hostText at hx
    rw [hcons] at hx ⊢
    exact hx
  · intro x hx
    unfold HTTPv1Client.hostText at hx
    split at hx
    · rw [List.append_nil] at hx
      exact hlast x hx
    · rw [List.getLast?_append_of_ne_nil _ (by simp),
        List.getLast?_append_of_ne_nil _ (decimal_ne_nil _)] at hx
      exact isspace_of_le (le_of_mem_decimal _ x (List.mem_of_getLast? hx))

/-- The server takes the host and the port out of the header. -/
theorem hostOptions_hostText {c : HTTPv1Client} (hhost : c.virtualHost ≠ [])
    (hcolon : 58 ∉ c.virtualHost) :
    hostOptions c.hostText = (c.virtualHost, c.virtualPort.toNat) := by
  have hfree : ∀ x ∈ c.virtualHost, decide (x = 58) = false := fun x hx =>
    decide_eq_false fun heq => hcolon (heq ▸ hx)
  unfold hostOptions HTTPv1Client.hostText
  by_cases hport : c.virtualPort = 80
  · rw [if_pos hport, List.append_nil, if_neg hhost, splitCompress,
      List.splitOnP_eq_singleton hfree, hport]
    rfl
  · have hlt := c.virtualPort.toNat_lt
    rw [if_neg hport, if_neg (by simp), List.singleton_append,
      splitCompress_pair hfree rfl (ne_of_mem_decimal rfl _) (decimal_ne_nil _)]
    show (c.virtualHost, strtoull (decimal c.virtualPort.toNat) % 2 ^ 16) = _
    rw [strtoull_decimal (by omega), Nat.mod_eq_of_lt hlt]

/-! ## What is delivered -/

namespace HTTPv1ClientRequest

open MimeHeaderOption MimeSubHeader

/-- What a caller may ask for. -/
structure Deliverable (c : HTTPv1ClientRequest) : Prop where
  wellFormed : c.toHTTPv1Client.WellFormed
  room : c.toHTTPv1Client.HasRoom
  method : IsWord c.requestMethod
  path : c.requestURI ≠ [] ∧ IsWord c.requestURI ∧ 63 ∉ c.requestURI
  version : c.httpVersion.majorVersion = 1 ∧ c.httpVersion.minorVersion < 2 ^ 16
  host : c.virtualHost ≠ [] → IsPlain c.virtualHost ∧ 58 ∉ c.virtualHost
  noHost : c.virtualHost = [] →
    c.httpVersion.minorVersion = 0 ∧ c.headers.getOptionByName (bytesOf "Host") = none
  contentType : ∀ opt ∈ c.headers.getOptionByName (bytesOf "Content-Type"), ∀ tag,
    containerType (opt.received tag).value = .bin

/-- The request keeps to the limits of the server. -/
structure Fits (tags : ℕ → List UInt8) (maxPostDataSize : ℕ) (c : HTTPv1ClientRequest) :
    Prop where
  line : ∀ query ∈ c.queryText, (c.requestLine query).length + 2 ≤ 128 * 1024
  headers : HTTPv1Server.LinesFit tags c.toHTTPv1Client
  body : c.content.size ≤ maxPostDataSize

variable (tags : ℕ → List UInt8) (c : HTTPv1ClientRequest)

/-- The headers that are written. -/
def headersSent : MimeSubHeader := c.headersToStream tags c.content.size

/-- The request as the server has it before it. -/
def requestText (query : List UInt8) : MessageText where
  line := c.requestLine query
  lines := (c.headersSent tags).sorted.map (·.toText)
  body := c.content.bytes

/-- The server has what the caller has asked for. -/
structure Arrived (s : HTTPv1Connection) : Prop where
  requestLine : s.requestLine.derived =
    ⟨toUpperBytes c.requestMethod, c.requestURI, c.parameters, c.httpVersion⟩
  /-- Every option, with its text up to a zero byte. -/
  headers : s.headers.derived.entries =
    (c.headersSent tags).entries.map fun e => (e.1, e.2.1, e.2.2.takeWhile (· ≠ 0))
  host : (s.virtualHost, s.virtualPort) = c.hostSent
  body : s.content.derived.outStream.bytes = c.content.bytes

/-- The request was answered once, with what `procHTTPClientContent` makes of it. -/
structure Served (H : Handlers) (s : HTTPv1Connection) : Prop where
  arrived : Arrived tags c s
  log : s.log = [.answer, .procHTTPClientContent false]
  answered : ∃ shown, Arrived tags c shown ∧ s.responseCode = H.procHTTPClientContent shown

variable {tags c}

/-- What the client writes is the text of a request. -/
theorem bytes_of_initProtocol {sent : List UInt8} (h : c.initProtocol tags = some sent) :
    ∃ query, c.queryText = some query ∧ sent = (c.requestText tags query).bytes ∧
      c.streamSize = some c.content.size := by
  obtain ⟨line, hline, hrest⟩ := Option.bind_eq_some_iff.mp h
  obtain ⟨query, hquery, rfl⟩ := Option.map_eq_some_iff.mp hline
  obtain ⟨headers, hheaders, rfl⟩ := Option.map_eq_some_iff.mp hrest
  obtain ⟨strsize, hsize, rfl⟩ := Option.map_eq_some_iff.mp hheaders
  have hcontent : c.streamSize = some c.content.size := by
    rw [c.streamSize_eq, getStreamSize] at hsize ⊢
    split at hsize
    · cases hsize
    · rename_i hne
      rw [if_neg hne]
  obtain rfl : c.content.size = strsize := Option.some.inj (hcontent.symm.trans hsize)
  refine ⟨query, hquery, ?_, hcontent⟩
  rw [c.counted.flatten_pieces, text_eq_block, MessageText.bytes, requestText, requestLine,
    headersSent]
  simp only [List.append_assoc, List.cons_append, List.nil_append]

/-- What the server makes of the options. -/
theorem getOptionByName_requestText (hc : c.Deliverable) (tags stags : ℕ → List UInt8)
    (query name : List UInt8) :
    ∃ i, ((c.requestText tags query).headers stags).getOptionByName name =
      ((c.headersSent tags).getOptionByName name).map (received (stags i)) :=
  getOptionByName_lines stags
    (HTTPv1Client.keeps_headersToStream tags hc.wellFormed c.content.size).options
    (HTTPv1Client.length_headersToStream tags hc.wellFormed c.content.size) name

/-- The server takes the host of the caller from the headers. -/
theorem host_requestText (hc : c.Deliverable) (stags : ℕ → List UInt8) (query : List UInt8) :
    (c.requestText tags query).host stags = c.hostSent := by
  obtain ⟨i, hi⟩ := getOptionByName_requestText hc tags stags query (bytesOf "Host")
  have hname : toUpperBytes (bytesOf "HOST") = toUpperBytes (bytesOf "Host") := by decide
  have hvalue : ((c.requestText tags query).headers stags).getOptionValueStringByName
      (bytesOf "HOST") = ((((c.headersSent tags).getOptionByName (bytesOf "Host")).map
        (received (stags i))).map (·.value)).getD [] := by
    rw [getOptionValueStringByName, getOptionByName, hname, ← getOptionByName, hi]
  rw [MessageText.host, hvalue, hostSent, headersSent]
  by_cases hhost : c.virtualHost = []
  · rw [HTTPv1Client.host_headersToStream_nil tags hhost, (hc.noHost hhost).2, if_pos hhost]
    rfl
  · obtain ⟨hplain, hcolon⟩ := hc.host hhost
    obtain ⟨tag, htag⟩ := HTTPv1Client.host_headersToStream tags hc.room hhost c.content.size
    have hkept := (origName_parseSubValues tag { origName := bytesOf "Host" } c.hostText).2
    rw [htag, if_neg hhost, Option.map_some, Option.map_some, Option.getD_some,
      value_received (by rw [hkept]; exact HTTPv1Client.isPlain_hostText hhost hplain), hkept]
    exact hostOptions_hostText hhost hcolon

/-- The server reads the length of the body. -/
theorem length_requestText (hc : c.Deliverable) (stags : ℕ → List UInt8) (query : List UInt8) :
    strtoull (((c.requestText tags query).headers stags).getOptionValueStringByName
      (bytesOf "Content-Length")) = c.content.bytes.length := by
  obtain ⟨i, hi⟩ := getOptionByName_requestText hc tags stags query (bytesOf "Content-Length")
  obtain ⟨tag, htag⟩ := HTTPv1Client.contentLength_headersToStream tags hc.room c.content.size
  have hkept := (origName_parseSubValues tag { origName := bytesOf "Content-Length" }
    (decimal c.content.size)).2
  have hsize := c.counted.size_eq
  have hlt : c.content.size < 2 ^ 64 := c.counted.fits
  rw [getOptionValueStringByName, hi, headersSent, htag, Option.map_some, Option.map_some,
    Option.getD_some, value_received (by rw [hkept]; exact isPlain_decimal _), hkept,
    strtoull_decimal hlt, hsize]

/-- The body goes to the container of bytes. -/
theorem container_requestText (hc : c.Deliverable) (stags : ℕ → List UInt8)
    (query : List UInt8) :
    containerType (((c.requestText tags query).headers stags).getOptionValueStringByName
      (bytesOf "Content-Type")) = .bin := by
  obtain ⟨i, hi⟩ := getOptionByName_requestText hc tags stags query (bytesOf "Content-Type")
  rw [getOptionValueStringByName, hi, headersSent,
    HTTPv1Client.getOptionByName_headersToStream tags _ (by decide +kernel)]
  cases hown : c.headers.getOptionByName (bytesOf "Content-Type") with
  | none =>
      show containerType [] = .bin
      decide +kernel
  | some opt => exact hc.contentType opt hown _

/-- No line break stands in the request line. -/
theorem first_requestLine (hc : c.Deliverable) {query : List UInt8}
    (hquery : c.queryText = some query) : first [13, 10] (c.requestLine query) = none := by
  have hword := isWord_of_queryText hquery
  apply first_eq_none_of_not_mem
  intro hmem
  rw [requestLine, List.mem_append, List.mem_cons, List.mem_append, List.mem_append,
    List.mem_cons] at hmem
  rcases hmem with h | h | (h | h) | h | h
  · exact (hc.method 13 h).2.2.1 rfl
  · exact absurd h (by decide)
  · exact (hc.path.2.1 13 h).2.2.1 rfl
  · exact (hword 13 h).2.2.1 rfl
  · exact absurd h (by decide)
  · exact (isWord_toText _ 13 h).2.2.1 rfl

/-- The server has no reason to refuse the request. -/
theorem acceptable_requestText (hc : c.Deliverable) {maxPostDataSize : ℕ}
    (hfits : c.Fits tags maxPostDataSize) (hsize : c.streamSize = some c.content.size)
    (stags : ℕ → List UInt8) {query : List UInt8} (hquery : c.queryText = some query) :
    (c.requestText tags query).Acceptable stags maxPostDataSize
      ⟨toUpperBytes c.requestMethod, c.requestURI, c.parameters, c.httpVersion⟩ := by
  have hlines : ∀ l ∈ (c.requestText tags query).lines, ∃ o ∈ (c.headersSent tags).headers,
      o.2.toText = l := by
    intro l hl
    obtain ⟨opt, hopt, rfl⟩ := List.mem_map.mp hl
    obtain ⟨o, ho, rfl⟩ := mem_sorted.mp hopt
    exact ⟨o, ho, rfl⟩
  have hkeeps := HTTPv1Client.keeps_headersToStream tags hc.wellFormed c.content.size
  exact {
    unbroken := first_requestLine hc hquery
    lineFits := hfits.line query hquery
    parsed := ofText_requestLine hc.method hc.path.2.1 hc.path.1 hc.path.2.2
      (by rw [hc.version.1]; decide) hc.version.2 hquery
    version := hc.version.1
    isLine := by
      intro l hl
      obtain ⟨o, ho, rfl⟩ := hlines l hl
      exact (hkeeps.options o ho).toText
    linesFit := by
      intro l hl
      obtain ⟨o, ho, rfl⟩ := hlines l hl
      exact hfits.headers _ hsize o ho
    host := by
      intro hminor
      rw [host_requestText hc, hostSent]
      split
      · rename_i hnone
        rw [(hc.noHost hnone).1] at hminor
        exact absurd hminor (by decide)
      · assumption
    length := length_requestText hc stags query
    bodyFits := by
      show c.content.bytes.length ≤ maxPostDataSize
      rw [← c.counted.size_eq]
      exact hfits.body
    container := container_requestText hc stags query }

/-- What the server has read is what the caller has asked for. -/
theorem arrived_of_shows (hc : c.Deliverable) {stags : ℕ → List UInt8} {query : List UInt8}
    {s : HTTPv1Connection} (h : HTTPv1Connection.Shows stags (c.requestText tags query)
      ⟨toUpperBytes c.requestMethod, c.requestURI, c.parameters, c.httpVersion⟩ s) :
    Arrived tags c s where
  requestLine := h.request
  headers := by
    have hkeeps := HTTPv1Client.keeps_headersToStream tags hc.wellFormed c.content.size
    have hwritable : ∀ opt ∈ (c.headersSent tags).sorted, opt.Writable := by
      intro opt hopt
      obtain ⟨o, ho, rfl⟩ := mem_sorted.mp hopt
      exact hkeeps.options o ho
    have hlength : (c.headersSent tags).sorted.length ≤ 32 := by
      rw [length_sorted]
      exact HTTPv1Client.length_headersToStream tags hc.wellFormed c.content.size
    have hheaders := foldl_parseOptionValue stags (h := {}) hwritable
      (by rw [List.length_nil, Nat.zero_add]; exact hlength)
    have hsorted := sorted_received stags hheaders
    rw [h.headers, MessageText.headers, MimeSubHeader.entries, requestText, hsorted,
      MimeSubHeader.entries, List.map_map, List.map_map]
    -- the tags do not show in the entries
    conv_rhs => rw [← List.zipIdx_map_fst 0 (c.headersSent tags).sorted, List.map_map]
    apply List.map_congr_left
    intro o ho
    exact entry_received_cut o.1 (stags o.2)
  host := by
    rw [h.host]
    exact host_requestText hc stags query
  body := h.body

end HTTPv1ClientRequest

open HTTPv1Connection HTTPv1ClientRequest

/-- A container with some bytes in one chunk. -/
def chunkOf (data : List UInt8) : BChunks where
  chunksVector := [⟨data, 0⟩]
  containerBytes := data.length

/-- A request with one variable and a body of three bytes, for a port of its own. -/
def postOfThree : HTTPv1ClientRequest where
  userAgent := bytesOf "m"
  virtualHost := bytesOf "a.b"
  virtualPort := 8080
  requestMethod := bytesOf "POST"
  requestURI := bytesOf "/x"
  getVars := [(bytesOf "ID", chunkOf (bytesOf "7"))]
  httpVersion := ⟨1, 1⟩
  content := chunkOf (bytesOf "abc")
  counted := ⟨by decide, by decide, by decide⟩
  streamSize_eq := rfl

theorem deliverable_postOfThree : postOfThree.Deliverable where
  wellFormed := ⟨HTTPv1Server.keeps_empty, le_rfl, by decide, by decide, by decide⟩
  room := by
    unfold HTTPv1Client.HasRoom
    decide
  method := by decide
  path := by decide
  version := by decide
  host _ := ⟨⟨by decide, by decide, by decide, by decide⟩, by decide⟩
  noHost h := absurd h (by decide)
  contentType opt h := by cases h

theorem fits_postOfThree : postOfThree.Fits (fun _ => []) (17825792 : UInt64).toNat where
  line query hquery := by
    obtain rfl := Option.some.inj (show some (bytesOf "?ID=7") = some query from hquery)
    decide
  headers strsize hsize := by
    obtain rfl : 3 = strsize := Option.some.inj hsize
    decide +kernel
  body := by decide

end Mantids
