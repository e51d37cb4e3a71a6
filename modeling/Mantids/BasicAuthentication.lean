/-
# Basic authentication between an HTTP client and a server

`HTTPv1_Client::streamClientHeaders` (`Protocol_HTTP/httpv1_client.cpp`) completes the headers of a
request and writes them; `HTTPv1_Server::changeToNextParserFromClientHeaders`
(`Protocol_HTTP/httpv1_server.cpp`) takes the credentials out of the headers it has read.

* `HTTPv1Client.headersToStream` — the headers that the client writes;
* `HTTPv1Server.parseBasicAuth` — the credentials that the server takes from its headers;
* `credentials_agree` — when the server has those of the client.

The client writes its credentials as `Authentication`, and the server looks for `Authorization`, so
they arrive only if the caller wrote that header on its own.  The decoder of the server is a
parameter.
-/
import Mantids.Crypto
import Mantids.HeaderBlock

namespace Mantids

open Occurrence

/-! ## The two sides -/

/-- `BasicAuth`. -/
structure BasicAuth where
  username : List UInt8 := []
  password : List UInt8 := []
  isEnabled : Bool := false
deriving DecidableEq

/-- What `streamClientHeaders` uses of an `HTTPv1_Client`. -/
structure HTTPv1Client where
  /-- `clientRequest.headers`. -/
  headers : MimeSubHeader := {}
  /-- `clientRequest.content.getStreamSize()`, unless it is the largest number. -/
  streamSize : Option ℕ := some 0
  /-- `m_clientCookies`, in the order of the map. -/
  clientCookies : List (List UInt8 × List UInt8) := []
  basicAuth : BasicAuth := {}
  userAgent : List UInt8 := []
  virtualHost : List UInt8 := []
  virtualPort : UInt16 := 80

namespace HTTPv1Client

/-- `Cookies_ClientSide::toString`: the separator stands in front of the first cookie. -/
def cookiesText (c : HTTPv1Client) : List UInt8 :=
  (if c.clientCookies = [] then [] else bytesOf "; ") ++
    c.clientCookies.flatMap fun cookie => cookie.1 ++ [61] ++ cookie.2

/-- The text of the `Host` header. -/
def hostText (c : HTTPv1Client) : List UInt8 :=
  c.virtualHost ++ if c.virtualPort = 80 then [] else [58] ++ decimal c.virtualPort.toNat

/-- The text of the header with the credentials. -/
def authenticationText (c : HTTPv1Client) : List UInt8 :=
  bytesOf "Basic " ++ Crypto.encodeToBase64 (c.basicAuth.username ++ [58] ++ c.basicAuth.password)

/-- The headers that `streamClientHeaders` makes, for a body of the given size. -/
def headersToStream (tags : ℕ → List UInt8) (c : HTTPv1Client) (strsize : ℕ) : MimeSubHeader :=
  let headers := c.headers.remove (bytesOf "Connetion")
  let headers := headers.replace tags (bytesOf "Content-Length") (decimal strsize)
  let headers := (headers.add tags (bytesOf "Cookie") c.cookiesText).1
  let headers :=
    if c.basicAuth.isEnabled then
      headers.replace tags (bytesOf "Authentication") c.authenticationText
    else headers
  let headers := headers.replace tags (bytesOf "User-Agent") c.userAgent
  if c.virtualHost = [] then headers else headers.replace tags (bytesOf "Host") c.hostText

/-- `streamClientHeaders`: the bytes that are written, if the size of the body is known. -/
def streamClientHeaders (tags : ℕ → List UInt8) (c : HTTPv1Client) : Option (List UInt8) :=
  c.streamSize.map fun strsize => (c.headersToStream tags strsize).text

end HTTPv1Client

namespace HTTPv1Server

variable (decodeFromBase64 : List UInt8 → List UInt8)

/-- The credentials in the value of the `Authorization` header. -/
def credentials (f1 : List UInt8) : Option (List UInt8 × List UInt8) :=
  match splitCompress (· = 32) f1 with
  | [scheme, encoded] =>
    if scheme = bytesOf "Basic" then
      let bp := decodeFromBase64 encoded
      if 58 ∈ bp then some (bp.takeWhile (· ≠ 58), (bp.dropWhile (· ≠ 58)).drop 1) else none
    else none
  | _ => none

/-- What `changeToNextParserFromClientHeaders` makes of the headers and the credentials so far. -/
def parseBasicAuth (headers : MimeSubHeader) (basicAuth : BasicAuth) : BasicAuth :=
  if headers.exist (bytesOf "Authorization") then
    match credentials decodeFromBase64
        (headers.getOptionValueStringByName (bytesOf "Authorization")) with
    | some (username, password) => ⟨username, password, true⟩
    | none => { basicAuth with isEnabled := false }
  else { basicAuth with isEnabled := false }

/-- The credentials of a server that reads a header block in the given writes. -/
def receiveBasicAuth (tags : ℕ → List UInt8) (heap : ℕ → ℕ → UInt8) (ws : List (List UInt8)) :
    Option BasicAuth :=
  if (MimeSubHeader.read tags heap ws).outcome = .stopped then
    some (parseBasicAuth decodeFromBase64 (MimeSubHeader.read tags heap ws).final.derived {})
  else none

end HTTPv1Server

/-! ## What the client writes -/

/-- A number has no line breaks. -/
theorem range_of_mem_decimal (n : ℕ) : ∀ c ∈ decimal n, 48 ≤ c ∧ c ≤ 57 := by
  intro c hc
  unfold decimal at hc
  split at hc
  · rw [List.mem_singleton.mp hc]
    decide
  · obtain ⟨d, hd, rfl⟩ := List.mem_map.mp hc
    have hlt := Nat.digits_lt_base (by norm_num) (List.mem_reverse.mp hd)
    interval_cases d <;> decide

theorem le_of_mem_decimal (n : ℕ) : ∀ c ∈ decimal n, 48 ≤ c :=
  fun c hc => (range_of_mem_decimal n c hc).1

/-- A mark of letters with a number behind it has no byte below the digits. -/
theorem not_mem_numbered {mark : List UInt8} (hmark : mark.all (48 ≤ ·) = true) {c : UInt8}
    (hc : c < 48) (pos : ℕ) : c ∉ mark ++ decimal pos := by
  intro hmem
  rcases List.mem_append.mp hmem with hmem | hmem
  · exact absurd (of_decide_eq_true (List.all_eq_true.mp hmark c hmem)) (UInt8.not_le.mpr hc)
  · exact absurd (le_of_mem_decimal pos c hmem) (UInt8.not_le.mpr hc)

/-- The options with a name that the code chooses can be written, whatever tags they are parsed
with. -/
theorem writable_of_value (name : List UInt8) {value : List UInt8}
    (hname : first [58, 32] name = none)
    (hstart : name.head? ≠ some 32 ∧ name.head? ≠ some 9) (hbreak : 13 ∉ name)
    (hvalue : first [13, 10] value = none) (tag : List UInt8) :
    (({ origName := name } : MimeHeaderOption).parseSubValues tag value).Writable := by
  obtain ⟨hkept, hset⟩ := MimeHeaderOption.origName_parseSubValues tag
    { origName := name } value
  refine ⟨?_, ?_, ?_⟩
  · rw [hkept]
    exact hname
  · rw [hkept]
    exact hstart
  · rw [MimeHeaderOption.toText, hkept, hset]
    refine first_append_eq_none_of_not_mem ?_ hvalue
    simp [hbreak]

namespace HTTPv1Client

/-- What the caller put into a request is a header block: its own options and the texts that become
options are lines, and there are no more options than either side keeps. -/
structure WellFormed (c : HTTPv1Client) : Prop where
  headers : MimeSubHeader.Keeps MimeHeaderOption.Writable c.headers
  limit : c.headers.maxOptions ≤ 32
  cookies : first [13, 10] c.cookiesText = none
  userAgent : first [13, 10] c.userAgent = none
  virtualHost : first [13, 10] c.virtualHost = none

variable {c : HTTPv1Client} (tags : ℕ → List UInt8)

theorem first_hostText (hc : c.WellFormed) : first [13, 10] c.hostText = none := by
  refine first_pair_append_eq_none hc.virtualHost ?_
  split
  · simp
  · intro hmem
    rcases List.mem_append.mp hmem with hcolon | hdigit
    · exact absurd hcolon (by decide)
    · exact absurd (le_of_mem_decimal _ _ hdigit) (by decide)

theorem first_authenticationText (c : HTTPv1Client) :
    first [13, 10] c.authenticationText = none := by
  refine first_eq_none_of_not_mem ?_ _
  intro hmem
  rcases List.mem_append.mp hmem with hscheme | hencoded
  · exact absurd hscheme (by decide)
  · exact absurd (Base64.le_of_mem_encode _ _ hencoded) (by decide)

theorem first_decimal (n : ℕ) : first [13, 10] (decimal n) = none :=
  first_eq_none_of_not_mem (fun hmem => absurd (le_of_mem_decimal n _ hmem) (by decide)) _

/-- Every option that is written is a line. -/
theorem keeps_headersToStream (hc : c.WellFormed) (strsize : ℕ) :
    MimeSubHeader.Keeps MimeHeaderOption.Writable (c.headersToStream tags strsize) := by
  have hsize := (hc.headers.remove (bytesOf "Connetion")).replace tags
    (writable_of_value (bytesOf "Content-Length") (by decide) (by decide) (by decide)
      (first_decimal strsize))
  have hcookie := hsize.add tags
    (writable_of_value (bytesOf "Cookie") (by decide) (by decide) (by decide) hc.cookies)
  have hauth := hcookie.replace tags
    (writable_of_value (bytesOf "Authentication") (by decide) (by decide) (by decide)
      (first_authenticationText c))
  have hagent : ∀ headers, MimeSubHeader.Keeps MimeHeaderOption.Writable headers →
      MimeSubHeader.Keeps MimeHeaderOption.Writable
        (headers.replace tags (bytesOf "User-Agent") c.userAgent) := fun headers hkeeps =>
    hkeeps.replace tags
      (writable_of_value (bytesOf "User-Agent") (by decide) (by decide) (by decide) hc.userAgent)
  have hhost : ∀ headers, MimeSubHeader.Keeps MimeHeaderOption.Writable headers →
      MimeSubHeader.Keeps MimeHeaderOption.Writable
        (headers.replace tags (bytesOf "Host") c.hostText) := fun headers hkeeps =>
    hkeeps.replace tags
      (writable_of_value (bytesOf "Host") (by decide) (by decide) (by decide) (first_hostText hc))
  unfold headersToStream
  simp only
  cases c.basicAuth.isEnabled
  · split
    · exact hagent _ hcookie
    · exact hhost _ (hagent _ hcookie)
  · split
    · exact hagent _ hauth
    · exact hhost _ (hagent _ hauth)

theorem maxOptions_headersToStream (c : HTTPv1Client) (strsize : ℕ) :
    (c.headersToStream tags strsize).maxOptions = c.headers.maxOptions := by
  unfold headersToStream
  simp only
  split_ifs <;> simp

theorem length_headersToStream (hc : c.WellFormed) (strsize : ℕ) :
    (c.headersToStream tags strsize).headers.length ≤ 32 := by
  have hroom := (keeps_headersToStream tags hc strsize).room
  rw [maxOptions_headersToStream] at hroom
  exact hroom.trans hc.limit

/-- The client writes no `Authorization` header of its own. -/
theorem authorization_headersToStream (c : HTTPv1Client) (strsize : ℕ) :
    (c.headersToStream tags strsize).getOptionByName (bytesOf "Authorization") =
      c.headers.getOptionByName (bytesOf "Authorization") := by
  have hsize : (((c.headers.remove (bytesOf "Connetion")).replace tags (bytesOf "Content-Length")
      (decimal strsize)).add tags (bytesOf "Cookie") c.cookiesText).1.getOptionByName
        (bytesOf "Authorization") = c.headers.getOptionByName (bytesOf "Authorization") := by
    rw [MimeSubHeader.getOptionByName_add tags (by decide),
      MimeSubHeader.getOptionByName_replace tags (by decide),
      MimeSubHeader.getOptionByName_remove (by decide)]
  unfold headersToStream
  simp only
  split_ifs
  · rw [MimeSubHeader.getOptionByName_replace tags (by decide),
      MimeSubHeader.getOptionByName_replace tags (by decide), hsize]
  · rw [MimeSubHeader.getOptionByName_replace tags (by decide), hsize]
  · rw [MimeSubHeader.getOptionByName_replace tags (by decide),
      MimeSubHeader.getOptionByName_replace tags (by decide),
      MimeSubHeader.getOptionByName_replace tags (by decide), hsize]
  · rw [MimeSubHeader.getOptionByName_replace tags (by decide),
      MimeSubHeader.getOptionByName_replace tags (by decide), hsize]

end HTTPv1Client

/-! ## What the server makes of it -/

namespace HTTPv1Server

variable (decodeFromBase64 : List UInt8 → List UInt8)

/-- The server has credentials exactly when there is a header that holds them. -/
theorem parseBasicAuth_eq_iff {headers : MimeSubHeader} {username password : List UInt8} :
    parseBasicAuth decodeFromBase64 headers {} = ⟨username, password, true⟩ ↔
      ∃ opt, headers.getOptionByName (bytesOf "Authorization") = some opt ∧
        credentials decodeFromBase64 opt.value = some (username, password) := by
  unfold parseBasicAuth MimeSubHeader.exist MimeSubHeader.getOptionValueStringByName
  cases headers.getOptionByName (bytesOf "Authorization") with
  | none => simp
  | some opt =>
      simp only [Option.isSome_some, if_true, Option.map_some, Option.getD_some, Option.some.injEq,
        exists_eq_left']
      cases credentials decodeFromBase64 opt.value with
      | none => simp
      | some found => simp [Prod.ext_iff]

/-- The caller wrote an `Authorization` header into the request, and whatever tag the server draws
for it, it holds the credentials of the client. -/
def OwnAuthorization (c : HTTPv1Client) : Prop :=
  ∃ opt, c.headers.getOptionByName (bytesOf "Authorization") = some opt ∧
    ∀ tag, credentials decodeFromBase64 (opt.received tag).value =
      some (c.basicAuth.username, c.basicAuth.password)

/-- Every header line fits in the buffer of the server. -/
def LinesFit (tags : ℕ → List UInt8) (c : HTTPv1Client) : Prop :=
  ∀ strsize ∈ c.streamSize, ∀ o ∈ (c.headersToStream tags strsize).headers,
    o.2.toText.length + 2 ≤ 2 * 1024

/-- Without such a header the request is read and the server has no credentials. -/
theorem receiveBasicAuth_of_none {c : HTTPv1Client} (hc : c.WellFormed) {tags : ℕ → List UInt8}
    {strsize : ℕ} (hown : c.headers.getOptionByName (bytesOf "Authorization") = none)
    (hfit : ∀ o ∈ (c.headersToStream tags strsize).headers, o.2.toText.length + 2 ≤ 2 * 1024)
    (stags : ℕ → List UInt8) (heap : ℕ → ℕ → UInt8) {ws : List (List UInt8)}
    (hws : ∀ w ∈ ws, w ≠ []) (hflat : ws.flatten = (c.headersToStream tags strsize).text) :
    receiveBasicAuth decodeFromBase64 stags heap ws = some {} := by
  obtain ⟨hstopped, hfound⟩ := (MimeSubHeader.read_text stags heap
    (HTTPv1Client.keeps_headersToStream tags hc strsize).options
    (HTTPv1Client.length_headersToStream tags hc strsize) hws hflat).1 hfit
  obtain ⟨i, hi⟩ := hfound (bytesOf "Authorization")
  rw [HTTPv1Client.authorization_headersToStream, hown] at hi
  rw [receiveBasicAuth, if_pos hstopped, parseBasicAuth, MimeSubHeader.exist, hi]
  rfl

/-- **The credentials arrive** in every way that the written headers can be cut into writes, exactly
when the caller has put an `Authorization` header with the same credentials into the request and no
line is too long for the server. -/
theorem credentials_agree {c : HTTPv1Client} (hc : c.WellFormed)
    (henabled : c.basicAuth.isEnabled = true) {tags : ℕ → List UInt8} {text : List UInt8}
    (htext : c.streamClientHeaders tags = some text) :
    (∀ stags heap ws, (∀ w ∈ ws, w ≠ []) → ws.flatten = text →
      receiveBasicAuth decodeFromBase64 stags heap ws = some c.basicAuth) ↔
      LinesFit tags c ∧ OwnAuthorization decodeFromBase64 c := by
  obtain ⟨strsize, hsize, rfl⟩ := Option.map_eq_some_iff.mp htext
  have hkeeps := HTTPv1Client.keeps_headersToStream tags hc strsize
  have hroom := HTTPv1Client.length_headersToStream tags hc strsize
  have hauth : c.basicAuth = ⟨c.basicAuth.username, c.basicAuth.password, true⟩ := by
    rw [← henabled]
  have hread := fun stags heap (ws : List (List UInt8)) (hws : ∀ w ∈ ws, w ≠ []) hflat =>
    MimeSubHeader.read_text stags heap hkeeps.options hroom hws hflat
  constructor
  · intro hall
    have hone := fun stags => hall stags (fun _ _ => 0)
      [(c.headersToStream tags strsize).text] (by simp [MimeSubHeader.text]) (by simp)
    have hone_read := fun stags => hread stags (fun _ _ => 0)
      [(c.headersToStream tags strsize).text] (by simp [MimeSubHeader.text]) (by simp)
    have hfit : ∀ o ∈ (c.headersToStream tags strsize).headers,
        o.2.toText.length + 2 ≤ 2 * 1024 := by
      intro o ho
      by_contra hlong
      have hfailed := (hone_read tags).2 ⟨o, ho, not_le.mp hlong⟩
      have hnone := hone tags
      rw [receiveBasicAuth, hfailed, if_neg (by decide)] at hnone
      cases hnone
    have hcred : ∀ tag, ∃ opt, c.headers.getOptionByName (bytesOf "Authorization") = some opt ∧
        credentials decodeFromBase64 (opt.received tag).value =
          some (c.basicAuth.username, c.basicAuth.password) := by
      intro tag
      obtain ⟨hstopped, hfound⟩ := (hone_read fun _ => tag).1 hfit
      have hsome := hone fun _ => tag
      rw [receiveBasicAuth, if_pos hstopped, hauth] at hsome
      obtain ⟨opt, hopt, hvalue⟩ :=
        (parseBasicAuth_eq_iff decodeFromBase64).mp (Option.some.inj hsome)
      obtain ⟨i, hi⟩ := hfound (bytesOf "Authorization")
      rw [HTTPv1Client.authorization_headersToStream, hopt] at hi
      obtain ⟨own, hown, rfl⟩ := Option.map_eq_some_iff.mp hi.symm
      exact ⟨own, hown, hvalue⟩
    obtain ⟨opt, hopt, -⟩ := hcred []
    refine ⟨?_, opt, hopt, fun tag => ?_⟩
    · intro size hsize' o ho
      obtain rfl : strsize = size := Option.some.inj (hsize.symm.trans hsize')
      exact hfit o ho
    · obtain ⟨opt', hopt', hvalue⟩ := hcred tag
      obtain rfl : opt = opt' := Option.some.inj (hopt.symm.trans hopt')
      exact hvalue
  · rintro ⟨hfit, opt, hopt, hown⟩ stags heap ws hws hflat
    obtain ⟨hstopped, hfound⟩ := (hread stags heap ws hws hflat).1 (hfit strsize hsize)
    obtain ⟨i, hi⟩ := hfound (bytesOf "Authorization")
    rw [HTTPv1Client.authorization_headersToStream, hopt] at hi
    rw [receiveBasicAuth, if_pos hstopped, hauth]
    exact congrArg some ((parseBasicAuth_eq_iff decodeFromBase64).mpr ⟨_, hi, hown _⟩)

/-- The decoder of base 64. -/
def base64Decoder (input : List UInt8) : List UInt8 := (Base64.decode input).getD []

/-- The client of a user with a password, and the headers that its caller wrote. -/
def clientOfUser (headers : MimeSubHeader) : HTTPv1Client where
  headers := headers
  basicAuth := ⟨bytesOf "user", bytesOf "pass", true⟩

theorem wellFormed_clientOfUser {headers : MimeSubHeader}
    (hkeeps : MimeSubHeader.Keeps MimeHeaderOption.Writable headers)
    (hlimit : headers.maxOptions ≤ 32) : (clientOfUser headers).WellFormed :=
  ⟨hkeeps, hlimit, rfl, rfl, rfl⟩

theorem keeps_empty : MimeSubHeader.Keeps MimeHeaderOption.Writable {} :=
  ⟨by simp, by simp⟩

/-- A caller that writes the header itself gets its credentials through. -/
theorem credentials_agree_own_header :
    ∃ text, (clientOfUser (({} : MimeSubHeader).replace (fun _ => []) (bytesOf "Authorization")
        (bytesOf "Basic dXNlcjpwYXNz"))).streamClientHeaders (fun _ => []) = some text ∧
      ∀ stags heap ws, (∀ w ∈ ws, w ≠ []) → ws.flatten = text →
        receiveBasicAuth base64Decoder stags heap ws =
          some ⟨bytesOf "user", bytesOf "pass", true⟩ := by
  refine ⟨_, rfl, (credentials_agree base64Decoder
    (wellFormed_clientOfUser (keeps_empty.replace _ (writable_of_value _ (by decide +kernel)
      (by decide +kernel) (by decide +kernel) (by decide +kernel))) (by simp)) rfl rfl).mpr
    ⟨?_, ?_⟩⟩
  · intro strsize hsize
    obtain rfl : 0 = strsize := Option.some.inj hsize
    decide +kernel
  · exact ⟨_, rfl, fun tag => rfl⟩

/-- The client of a user with a password and nothing else in its request: the credentials do not
arrive. -/
theorem credentials_not_received :
    ¬ ∀ (c : HTTPv1Client) (tags : ℕ → List UInt8) (text : List UInt8), c.WellFormed →
      c.basicAuth.isEnabled = true → 58 ∉ c.basicAuth.username →
      c.streamClientHeaders tags = some text →
      ∀ stags heap ws, (∀ w ∈ ws, w ≠ []) → ws.flatten = text →
        receiveBasicAuth base64Decoder stags heap ws = some c.basicAuth := by
  intro hall
  have hc := wellFormed_clientOfUser keeps_empty (by decide)
  have hws : ∀ w ∈ [((clientOfUser {}).headersToStream (fun _ => []) 0).text], w ≠ [] := by
    simp [MimeSubHeader.text]
  have hflat : [((clientOfUser {}).headersToStream (fun _ => []) 0).text].flatten =
      ((clientOfUser {}).headersToStream (fun _ => []) 0).text := List.flatten_singleton
  have hsome := hall (clientOfUser {}) (fun _ => []) _ hc rfl (by decide) rfl (fun _ => [])
    (fun _ _ => 0) _ hws hflat
  have hnone := receiveBasicAuth_of_none base64Decoder hc rfl (by decide +kernel) (fun _ => [])
    (fun _ _ => 0) hws hflat
  have hempty := Option.some.inj (hsome.symm.trans hnone)
  exact absurd (congrArg BasicAuth.isEnabled hempty) (by decide)

end HTTPv1Server

end Mantids
