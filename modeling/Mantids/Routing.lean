/-
# Requests and where they go

`APIClientHandler::procHTTPClientContent` (`Server_WebCore/apiclienthandler.cpp`) looks at the
browser, at forced redirections, at the session, and then sends the request to the API, to an
authentication function, to a dynamic handler or to the file server.  This file has the parts
that only look at the request and at the configuration.

* `Request` — what the client sent; `Surroundings` — what the clock, the random source, the
  token validator and the application's own handlers do while it is served;
* `isSupportedUserAgent` — the browser test in front of everything;
* `route` — the branch that a request takes.
-/
import Mantids.FileRequest
import Mantids.Token
import Mantids.Lib.Occurrence

namespace Mantids

/-! ## Configuration -/

/-- `APIServerParameters`, all that a request to a monolith server reads. -/
structure WebParameters (Regex : Type*) extends APIServerParameters Regex where
  redirections : String → Option String := fun _ => none
  /-- `APIURLs`, in the order of the set. -/
  APIURLs : List String := ["/api"]
  /-- The routes of `dynamicRequestHandlersByRoute`, in the order of the map. -/
  dynamicRequestHandlersByRoute : List String := []
  permittedLoginOrigins : Finset String := ∅
  permittedAPIOrigins : Finset String := ∅
  /-- `dynamicOriginValidator`, over origin and API key. -/
  dynamicOriginValidator : Option (String → String → Bool) := none
  callbackAPIMethodName : String := "callback"
  allowFloatingClients : Bool := false
  allowImpersonation : Bool := false
  allowImpersonationBetweenDifferentDomains : Bool := false
  appName : String := ""
  /-- `m_staticContentElements` of the server. -/
  staticContentElements : String → Option String := fun _ => none
  /-- `m_mimeTypes` of the server. -/
  mimeTypes : String → Option String := fun _ => none
  /-- `boost::regex_match` over the patterns of the resource filter. -/
  regexMatch : Regex → String → Bool

/-! ## Requests -/

/-- `HTTPv1_Base::Request`, what is read of it. -/
structure Request where
  /-- `getURI()`. -/
  uri : String
  userAgent : String := ""
  /-- `getOrigin()`. -/
  origin : String := ""
  /-- The header `x-api-key`. -/
  xAPIKEY : String := ""
  /-- The header `X-HalfSession-ID`. -/
  halfSessionID : String := ""
  /-- The cookie `sessionId`. -/
  sessionId : String := ""
  /-- The cookie `impersonatorSessionId`. -/
  impersonatorSessionId : String := ""
  /-- `networkClientInfo.REMOTE_ADDR`. -/
  REMOTE_ADDR : String := ""
  /-- `networkClientInfo.isSecure`. -/
  isSecure : Bool := false
  /-- `networkClientInfo.tlsCommonName`. -/
  tlsCommonName : String := ""
  /-- The variables that were posted; `none` if the content is of a type for which
  `postVars` throws. -/
  postVars : Option (String → String) := none

/-- What `JWT::verify` answers for a text: the token it fills in, `false`, or an
exception. -/
inductive Verification where
  | accepted (token : Token)
  | rejected
  | threw

/-- What happens around one request.  A handler that throws, or that does not return, has
no status. -/
structure Surroundings where
  now : ℤ
  /-- The two random strings of a new session id; `none` if there are no random bytes. -/
  random : Option (String × String) := none
  /-- `jwtValidator->verify`. -/
  verify : String → Verification := fun _ => .rejected
  /-- `handleAPIRequest`: version, resource with its parameters, and session. -/
  handleAPIRequest : ℕ → String → Option Session → Option StatusCode :=
    fun _ _ _ => some .S_404_NOT_FOUND
  /-- A dynamic handler: its route and the rest of the path. -/
  handler : String → String → Option StatusCode := fun _ _ => some .S_404_NOT_FOUND
  /-- An API method that was called updates the last activity of the session. -/
  updatesLastActivity : Bool := false
  fileSystem : FileSystem
  engine : HTMLIEngine

/-! ## The browser test -/

/-- `supportedBrowsers`. -/
def supportedBrowsers : List (String × ℤ) :=
  [("chrome/", 51), ("firefox/", 60), ("applewebkit/", 606), ("trident/", 7), ("curl/", 0),
    ("wget/", 0), ("httpie/", 0), ("libwww-perl/", 0), ("libfetch/", 0), ("axel/", 0),
    ("wget2/", 0), ("libmantids/", 0)]

/-- The value of a text of decimal digits. -/
def decimalValue (digits : List Char) : ℕ :=
  digits.foldl (fun n c => 10 * n + (c.toNat - '0'.toNat)) 0

/-- `boost::lexical_cast<int>`: an optional sign and digits, in the range of `int`. -/
def lexicalCastInt (text : List Char) : Option ℤ :=
  let (negative, digits) :=
    match text with
    | '-' :: digits => (true, digits)
    | '+' :: digits => (false, digits)
    | digits => (false, digits)
  if digits ≠ [] ∧ digits.all Char.isDigit then
    let value : ℤ := if negative then -(decimalValue digits) else decimalValue digits
    if -2 ^ 31 ≤ value ∧ value < 2 ^ 31 then some value else none
  else none

def versionIsSupported (versionStr : List Char) (minVersion : ℤ) : Bool :=
  match lexicalCastInt versionStr with
  | some version => minVersion ≤ version
  | none => false

/-- `isSupportedUserAgent`: the first browser of the list that is named decides. -/
def isSupportedUserAgent (userAgent : String) : Bool :=
  let details := (toLowerCopy userAgent).toList
  match supportedBrowsers.findSome? (fun browser =>
    (Occurrence.first browser.1.toList details).map (fun pos => (browser, pos))) with
  | some (browser, pos) =>
    if browser.2 = 0 then true
    else
      versionIsSupported
        ((details.drop (pos + browser.1.toList.length)).takeWhile (· ≠ ' ')) browser.2
  | none => false

/-! ## Routes -/

/-- The branch that a request takes after `sessionStart`. -/
inductive Route where
  | api (apiVersion : ℕ) (resourceAndPathParameters : String)
  | apiVersionOutOfRange
  | apiDisallowedOrigin
  | auth (authFunction : String)
  | info
  | dynamic (route dynUrlWithoutBase : String)
  | regularFile
deriving DecidableEq

/-- `boost::starts_with`. -/
def startsWith (text start : String) : Bool := start.toList.isPrefixOf text.toList

/-- `substr(n)`. -/
def substr (text : String) (n : ℕ) : String := String.ofList (text.toList.drop n)

/-- The match of `/v(\d+)/(.+)`: the digits and the rest of the line. -/
def apiVersionResourcePattern (apiUrlWithoutBase : String) : Option (List Char × String) :=
  match apiUrlWithoutBase.toList with
  | '/' :: 'v' :: rest =>
    let digits := rest.takeWhile Char.isDigit
    match rest.dropWhile Char.isDigit with
    | '/' :: resource =>
      if digits ≠ [] ∧ resource ≠ [] ∧ resource.all (fun c => c ≠ '\n' && c ≠ '\r') then
        some (digits, String.ofList resource)
      else none
    | _ => none
  | _ => none

/-- The first token of `processPathParameters`. -/
def pathMethodName (resourceAndPathParameters : String) : String :=
  String.ofList
    ((resourceAndPathParameters.toList.dropWhile (· = '/')).takeWhile (· ≠ '/'))

variable {Regex : Type*} (config : WebParameters Regex) (r : Request)

/-- The origin checks in front of an API call. -/
def isOriginAllowed (methodName : String) : Bool :=
  if methodName = config.callbackAPIMethodName then r.origin ∈ config.permittedLoginOrigins
  else if r.origin = "" then true
  else
    match config.dynamicOriginValidator with
    | none => r.origin ∈ config.permittedAPIOrigins
    | some validator => validator r.origin r.xAPIKEY

/-- What follows when the request is for no API. -/
def routeResource : Route :=
  match config.dynamicRequestHandlersByRoute.find?
    (fun route => startsWith r.uri (route ++ "/")) with
  | some route => .dynamic route (substr r.uri route.toList.length)
  | none => .regularFile

/-- The loop over the base URLs, which ends at the first one that the request is under. -/
def route : Route :=
  match config.APIURLs.find? (fun baseApiUrl => startsWith r.uri (baseApiUrl ++ "/")) with
  | none => routeResource config r
  | some baseApiUrl =>
    let apiUrlWithoutBase := substr r.uri baseApiUrl.toList.length
    match apiVersionResourcePattern apiUrlWithoutBase with
    | some (digits, resourceAndPathParameters) =>
      -- `std::stoul` throws before any other check
      if 2 ^ 64 ≤ decimalValue digits then .apiVersionOutOfRange
      else if !isOriginAllowed config r (pathMethodName resourceAndPathParameters) then
        .apiDisallowedOrigin
      else .api (decimalValue digits) resourceAndPathParameters
    | none =>
      if startsWith apiUrlWithoutBase "/auth/" then .auth (substr apiUrlWithoutBase 6)
      else if startsWith apiUrlWithoutBase "/info" then .info
      else routeResource config r

end Mantids
