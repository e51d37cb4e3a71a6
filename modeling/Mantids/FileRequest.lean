/-
# Serving files under a resource filter

`APIClientHandler::handleRegularFileRequest` (`Server_WebCore/apiclienthandler.cpp`) answers
a request that is neither for the API nor for a dynamic handler.  It looks for the file,
asks the resource filter, and lets the HTML engine rewrite pages and scripts
(`Server_WebCore/htmliengine.cpp`).  The search has already put the file into the response
when the filter is asked, so a refusal has to take it out again, and what comes after must
not put it back.

* `processResourceFile` — the HTML engine;
* `handleRegularFileRequest` — the request;
* `resourceFilter_enforced` — a refused or redirected request carries no byte of the file.
-/
import Mantids.LocalFile
import Mantids.ResourcesFilter

namespace Mantids

/-! ## The HTML engine -/

/-- The two passes of the HTML engine over the text of a resource.  A pass that finds its
own tags again in what it put in does not end. -/
structure HTMLIEngine where
  /-- `procResource_HTMLIEngineInclude`. -/
  procInclude : (sRealFullPath contentType fileContent : String) → Option String
  /-- `procResource_JProcessor`. -/
  procJProcessor : (sRealFullPath fileContent : String) → Option String

namespace HTMLIEngine

/-- The two passes, and the text they leave as the body. -/
def generate (engine : HTMLIEngine) (s : HTTPv1Server) (sRealFullPath fileContent : String) :
    Option (StatusCode × HTTPv1Server) :=
  match engine.procInclude sRealFullPath s.serverResponse.contentType fileContent with
  | none => none
  | some fileContent =>
    match engine.procJProcessor sRealFullPath fileContent with
    | none => none
    | some fileContent =>
      some (.S_200_OK,
        s.setDataStreamer (some (.chunks (s.serverResponse.body ++ fileContent))))

/-- `processResourceFile`.  The reset of the streamer comes before the passes, so they see
an empty content type. -/
def processResourceFile (fs : FileSystem) (engine : HTMLIEngine) (s : HTTPv1Server)
    (sRealFullPath : String) : Option (StatusCode × HTTPv1Server) :=
  if "MEM:".toList.isPrefixOf sRealFullPath.toList then
    engine.generate (s.setDataStreamer none) sRealFullPath s.serverResponse.body
  else
    match fs.ifstream (cStr sRealFullPath) with
    | none => some (.S_404_NOT_FOUND, s.setDataStreamer none)
    | some fileContent => engine.generate (s.setDataStreamer none) sRealFullPath fileContent

end HTMLIEngine

/-! ## The request -/

open ResourcesFilter

/-- `APIServerParameters`, what the file server reads of it. -/
structure APIServerParameters (Regex : Type*) where
  documentRootPath : String
  /-- `resourceFilter`, if there is one: its list of filters. -/
  resourceFilter : Option (List (ResourcesFilter.Filter Regex)) := none
  useHTMLIEngine : Bool := true
  redirectPathOn404 : String := "/"

/-- What a filter sees of the session: `getSessionPermissions`, `getSessionRoles` and
`isSessionActive`. -/
structure SessionView where
  permissions : Finset String := ∅
  roles : Finset String := ∅
  isSessionActive : Bool := false

namespace APIClientHandler

variable {Regex : Type*} (regexMatch : Regex → String → Bool)
variable (fs : FileSystem) (engine : HTMLIEngine)
variable (config : APIServerParameters Regex) (session : SessionView) (s : HTTPv1Server)

/-- The three searches, with `.html`, with `index.html` and with nothing appended.  A later
one works on what the earlier ones left in the response. -/
def lookupFile : HTTPv1Server.Lookup :=
  let html := HTTPv1Server.getLocalFilePathFromURI2 fs s config.documentRootPath ".html" false
  if html.found then html
  else
    let index := HTTPv1Server.getLocalFilePathFromURI2 fs html.server config.documentRootPath
      "index.html" false
    if index.found then index
    else HTTPv1Server.getLocalFilePathFromURI2 fs index.server config.documentRootPath "" false

/-- The verdict on a path; without a filter everything is accepted. -/
def evaluate (sRealRelativePath : String) : FilterEvaluationResult :=
  match config.resourceFilter with
  | some filters => evaluateURI regexMatch sRealRelativePath session.permissions session.roles
      session.isSessionActive filters
  | none => {}

/-- The status that a verdict gives, and the redirection if it asks for one. -/
def applyVerdict (e : FilterEvaluationResult) (s : HTTPv1Server) : StatusCode × HTTPv1Server :=
  if e.accept then
    if e.redirectLocation = "" then (.S_200_OK, s) else s.setRedirectLocation e.redirectLocation
  else (.S_403_FORBIDDEN, s)

/-- The first part of the request, up to the reset of the streamer. -/
def decideFile : StatusCode × HTTPv1Server :=
  let l := lookupFile fs config s
  if l.found && !l.info.isDir then
    applyVerdict (evaluate regexMatch config session l.info.sRealRelativePath) l.server
  else (.S_404_NOT_FOUND, l.server)

/-- The pages and scripts that go through the HTML engine. -/
def isProcessed (s : HTTPv1Server) : Bool :=
  config.useHTMLIEngine &&
    (s.serverResponse.contentType = "text/html" ||
      s.serverResponse.contentType = "application/javascript")

/-- `handleRegularFileRequest`; `none` if the HTML engine does not end. -/
def handleRegularFileRequest : Option (StatusCode × HTTPv1Server) :=
  if config.documentRootPath = "" then some (.S_404_NOT_FOUND, s)
  else
    let (ret, s') := decideFile regexMatch fs config session s
    let s' := if ret ≠ .S_200_OK then s'.setDataStreamer none else s'
    let processed :=
      if isProcessed config s' then
        engine.processResourceFile fs s' (lookupFile fs config s).info.sRealFullPath
      else some (ret, s')
    processed.map (fun (ret, s') =>
      if ret = .S_404_NOT_FOUND ∧ config.redirectPathOn404 ≠ "" then
        s'.setRedirectLocation config.redirectPathOn404
      else (ret, s'))

/-- The relative path of the file that a request resolves to, if it resolves to one. -/
def requestedFile : Option String :=
  let l := lookupFile fs config s
  if config.documentRootPath ≠ "" ∧ l.found = true ∧ l.info.isDir = false then
    some l.info.sRealRelativePath
  else none

/-! ## The filter is enforced -/

variable {fs engine config s}

/-- A status that is neither success nor "not found" stays, and the response has nothing
left that the HTML engine would work on. -/
theorem handleRegularFileRequest_of_refused {ret : StatusCode} {s' : HTTPv1Server}
    (hroot : config.documentRootPath ≠ "")
    (hdecide : decideFile regexMatch fs config session s = (ret, s'))
    (hret : ret ≠ .S_200_OK) (hret' : ret ≠ .S_404_NOT_FOUND) :
    handleRegularFileRequest regexMatch fs engine config session s
      = some (ret, s'.setDataStreamer none) := by
  have hprocessed : isProcessed config (s'.setDataStreamer none) = false := by
    simp [isProcessed, HTTPv1Server.setDataStreamer]
  simp [handleRegularFileRequest, hroot, hdecide, hret, hret', hprocessed]

/-- What the filter says of the resolved file is what the first part of the request
decides. -/
theorem decideFile_of_requestedFile {path : String}
    (hfile : requestedFile fs config s = some path) :
    config.documentRootPath ≠ "" ∧
    decideFile regexMatch fs config session s
      = applyVerdict (evaluate regexMatch config session path) (lookupFile fs config s).server := by
  simp only [requestedFile] at hfile
  split_ifs at hfile with h
  obtain ⟨hroot, hfound, hdir⟩ := h
  have hpath : (lookupFile fs config s).info.sRealRelativePath = path := by simpa using hfile
  refine ⟨hroot, ?_⟩
  simp only [decideFile]
  rw [hfound, hdir, hpath]
  rfl

/-- **The resource filter is enforced.**  A file that the filter refuses is answered with
403, one that it redirects with the redirection, and in both cases with an empty body. -/
theorem resourceFilter_enforced {path : String} {filters : List (ResourcesFilter.Filter Regex)}
    (hfile : requestedFile fs config s = some path)
    (hfilter : config.resourceFilter = some filters) :
    ((evaluateURI regexMatch path session.permissions session.roles session.isSessionActive
        filters).accept = false →
      ∃ s', handleRegularFileRequest regexMatch fs engine config session s
          = some (.S_403_FORBIDDEN, s') ∧ s'.serverResponse.body = "") ∧
    ((evaluateURI regexMatch path session.permissions session.roles session.isSessionActive
        filters).redirectLocation ≠ "" →
      ∃ s', handleRegularFileRequest regexMatch fs engine config session s
          = some (.S_307_TEMPORARY_REDIRECT, s') ∧ s'.serverResponse.body = "") := by
  have heval : evaluate regexMatch config session path
      = evaluateURI regexMatch path session.permissions session.roles session.isSessionActive
          filters := by
    rw [evaluate, hfilter]
  obtain ⟨hroot, hdecide⟩ := decideFile_of_requestedFile regexMatch session hfile
  rw [heval] at hdecide
  constructor
  · intro haccept
    rw [applyVerdict, haccept] at hdecide
    exact ⟨_, handleRegularFileRequest_of_refused regexMatch session hroot hdecide (by decide)
      (by decide), rfl⟩
  · intro hredirect
    have haccept := evaluateURI_accept_of_redirect regexMatch path session.permissions
      session.roles session.isSessionActive filters hredirect
    rw [applyVerdict, haccept, if_pos rfl, if_neg hredirect] at hdecide
    exact ⟨_, handleRegularFileRequest_of_refused regexMatch session hroot hdecide (by decide)
      (by decide), rfl⟩

/-! ### A page behind a filter -/

/-- A document root with one page. -/
def samplePages : FileSystem where
  realpath path := if path = "/www" ∨ path = "/www/secret.html" then some path else none
  fileType path := if path = "/www" then .directory else .regular
  readable _ := true
  executable _ := false
  referenceFile path := if path = "/www/secret.html" then some "<html>42</html>" else none
  lastModified _ := some "Thu, 01 Jan 1970 00:00:00 GMT"
  ifstream path := if path = "/www/secret.html" then some "<html>42</html>" else none

def sampleServer : HTTPv1Server where
  uri := "/secret"
  mimeTypes ext := if ext = ".html" then some "text/html" else none

/-- Pages go through the HTML engine, and one filter covers the page. -/
def sampleParameters (filter : ResourcesFilter.Filter String) : APIServerParameters String where
  documentRootPath := "/www"
  resourceFilter := some [filter]

def sampleEngine : HTMLIEngine where
  procInclude _ _ fileContent := some fileContent
  procJProcessor _ fileContent := some fileContent

def denySecret : APIServerParameters String :=
  sampleParameters { regexPatterns := ["/secret.html"], action := .RFILTER_DENY }

def redirectSecret : APIServerParameters String :=
  sampleParameters
    { regexPatterns := ["/secret.html"], action := .RFILTER_REDIRECT, redirectLocation := "/login" }

theorem resourceFilter_enforced_secret :
    (∃ s', handleRegularFileRequest (fun p uri => p == uri) samplePages sampleEngine denySecret {}
        sampleServer = some (.S_403_FORBIDDEN, s') ∧ s'.serverResponse.body = "") ∧
    (∃ s', handleRegularFileRequest (fun p uri => p == uri) samplePages sampleEngine
        redirectSecret {} sampleServer
          = some (.S_307_TEMPORARY_REDIRECT, s') ∧ s'.serverResponse.body = "") := by
  have hdeny : requestedFile samplePages denySecret sampleServer = some "/secret.html" := by
    decide
  have hredirect : requestedFile samplePages redirectSecret sampleServer
      = some "/secret.html" := by
    decide
  exact ⟨(resourceFilter_enforced _ _ hdeny rfl).1 (by decide),
    (resourceFilter_enforced _ _ hredirect rfl).2 (by decide)⟩

end APIClientHandler

end Mantids
