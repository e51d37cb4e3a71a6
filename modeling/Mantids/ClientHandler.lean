/-
# The client handler of the monolith server

`ClientHandler` (`Server_MonolithWebAPI/clienthandler.cpp`) serves one request: it opens the
session that the request names (`sessionStart`), lets the request take its route, and
releases the session at the end (`sessionCleanup`, `sessionLogout`).  Each connection has its
own handler, and all of them share one `WebSessionsManager`.

* `sessionStart`, `handleAuthLoginFunction`, `handleAuthLogoutFunction`, `sessionCleanup`,
  `sessionLogout` — translated function by function;
* `procHTTPClientContent` — a whole request;
* `ServerOp`, `step` — requests, the garbage collector, and threads that waited.

An exception is not caught anywhere in the library.  A request that ends in one leaves the
sessions as they were when it was thrown.
-/
import Mantids.Routing
import Mantids.SessionsManager
import Mantids.Lib.Run

namespace Mantids

/-! ## The handler -/

/-- A cookie of the response; all of them are secure, strict and for the whole site.  One
without an age ends with the browser. -/
structure ResponseCookie where
  value : String
  maxAge : Option ℕ
  httpOnly : Bool
deriving DecidableEq

/-- The logins and logouts of a request. -/
inductive AuthEvent where
  | loggedIn (sessionID : String)
  | logoutAccepted
deriving DecidableEq

/-- `ClientHandler`, while it serves a request. -/
structure ClientHandler where
  /-- `m_sessionsManager`. -/
  sessionsManager : WebSessionsManager
  /-- `m_currentWebSession`. -/
  currentWebSession : Option WebSession := none
  /-- `m_currentSessionInfo.authSession`. -/
  authSession : Option Session := none
  /-- `m_currentSessionInfo.sessionId`. -/
  currentSessionId : String := ""
  /-- `m_sessionMaxAge`. -/
  sessionMaxAge : ℕ := 0
  /-- `m_sessionID`. -/
  sessionID : String := ""
  /-- `m_impersonatorSessionID`. -/
  impersonatorSessionID : String := ""
  /-- `m_destroySession`. -/
  destroySession : Bool := false
  /-- The cookies of the response. -/
  cookies : String → Option ResponseCookie := fun _ => none
  /-- What the authentication functions did. -/
  events : List AuthEvent := []

/-- How a request ends: with a status, with an exception (or a handler that never
returns), or it waits for the readers of a session. -/
inductive Outcome where
  | answered (code : StatusCode)
  | threw
  | blocked
deriving DecidableEq

namespace ClientHandler

def withManager (h : ClientHandler) (m : WebSessionsManager) : ClientHandler :=
  { h with sessionsManager := m }

/-! ### Cookies -/

def setCookie (h : ClientHandler) (cookieName : String) (cookie : ResponseCookie) :
    ClientHandler :=
  { h with cookies := Function.update h.cookies cookieName (some cookie) }

def setSecureCookie (h : ClientHandler) (cookieName cookieValue : String) (uMaxAge : ℕ) :
    ClientHandler :=
  h.setCookie cookieName ⟨cookieValue, some uMaxAge, true⟩

def addCookieClearSecure (h : ClientHandler) (cookieName : String) : ClientHandler :=
  h.setCookie cookieName ⟨"", none, true⟩

def setJSSessionTimeOutCookie (h : ClientHandler) (maxAge : ℕ) : ClientHandler :=
  h.setCookie "jsSessionTimeout" ⟨"1", some maxAge, false⟩

def setJSSessionHalfIDCookie (h : ClientHandler) (sessionID : String) : ClientHandler :=
  if h.authSession.isSome then
    h.setCookie "jsSessionHalfID" ⟨truncateSessionId sessionID, some h.sessionMaxAge, false⟩
  else h

/-! ### The beginning of a request -/

variable {Regex : Type*} (config : WebParameters Regex) (r : Request) (e : Surroundings)

def validateSessionAntiCSRFMechanism : Bool := r.halfSessionID = truncateSessionId r.sessionId

/-- `updateActivityOnImpersonatorSession`; `false` if the release throws.  The session is
released whether it could be opened or not. -/
def updateActivityOnImpersonatorSession (h : ClientHandler) : Bool × ClientHandler :=
  if h.impersonatorSessionID = "" then (true, h)
  else
    let m :=
      match h.sessionsManager.openSession h.impersonatorSessionID e.now with
      | (some _, m) => m.updateLastActivity h.impersonatorSessionID e.now
      | (none, m) => m
    match m.releaseSession h.impersonatorSessionID with
    | (.invalidClose, m) => (false, h.withManager m)
    | (_, m) => (true, h.withManager m)

/-- The checks of `sessionStart` on a session that was opened: the address, unless clients
may float, and the browser. -/
def clientMatches (w : WebSession) : Bool :=
  (config.allowFloatingClients || w.compareRemoteAddress r.REMOTE_ADDR) &&
    w.compareUserAgent r.userAgent

/-- The last part of `sessionStart`, from the opening of the session on. -/
def openCurrentSession (h : ClientHandler) : StatusCode × ClientHandler :=
  match h.sessionsManager.openSession h.sessionID e.now with
  | (none, m) =>
    (.S_200_OK, { h with sessionsManager := m, destroySession := true, sessionID := "" })
  | (some (w, maxAge), m) =>
    let h :=
      { h with
        sessionsManager := m
        currentWebSession := some w
        sessionMaxAge := maxAge
        authSession := some w.authSession
        currentSessionId := h.sessionID }
    if clientMatches config r w then (.S_200_OK, h)
    else (.S_403_FORBIDDEN, { h with sessionID := "", impersonatorSessionID := "" })

/-- `sessionStart`; `none` if it throws. -/
def sessionStart (h : ClientHandler) : Option StatusCode × ClientHandler :=
  let h := { h with
    sessionID := r.sessionId, impersonatorSessionID := r.impersonatorSessionId }
  if !validateSessionIDFormat h.sessionID || !validateSessionIDFormat h.impersonatorSessionID then
    (some .S_403_FORBIDDEN, { h with sessionID := "", impersonatorSessionID := "" })
  else if h.sessionID ≠ "" ∧ validateSessionAntiCSRFMechanism r = false then
    (some .S_403_FORBIDDEN, h)
  else
    match updateActivityOnImpersonatorSession e h with
    | (false, h) => (none, h)
    | (true, h) =>
      let (code, h) := openCurrentSession config r e h
      (some code, h)

/-! ### Login and logout -/

/-- The token that a login request brings: `none` if nothing can be read or verified. -/
def loginToken : Option Verification :=
  match r.postVars with
  | none => none
  | some vars =>
    match e.verify (vars "accessToken") with
    | .threw => none
    | .rejected => some .rejected
    | .accepted token =>
      if (token.getClaim "app").asStringD "" = config.appName then some (.accepted token)
      else some .rejected

/-- The checks of `handleAuthLoginFunction` on a verified token, over the session that is
open: the status of a refusal. -/
def refuseLogin (token : Token) (current : Option WebSession) : Option StatusCode :=
  let isImpersonation := token.hasClaim "impersonator"
  if isImpersonation && !config.allowImpersonation then some .S_405_METHOD_NOT_ALLOWED
  else
    match current with
    | none => none
    | some w =>
      if !isImpersonation then some .S_403_FORBIDDEN
      else if w.authSession.user ≠ token.getImpersonator then some .S_403_FORBIDDEN
      else if token.getDomain ≠ w.authSession.domain ∧
          config.allowImpersonationBetweenDifferentDomains = true then some .S_403_FORBIDDEN
      else none

/-- `networkClientInfo.toJSON()` with the members that a login adds. -/
def networkClientInfo : Json.Members :=
  (((((Json.Members.set [] "remoteAddress" (.string r.REMOTE_ADDR)).set "isSecureConnection"
    (.bool r.isSecure)).set "tls" (.object [("commonName", .string r.tlsCommonName)])).set
      "userAgent" (.string r.userAgent)).set "startTime" (.uint e.now.toNat))

/-- The last part of `handleAuthLoginFunction`: the token becomes a session. -/
def createLoginSession (h : ClientHandler) (token : Token) : Option StatusCode × ClientHandler :=
  let session := Session.ofToken token e.now
  match h.sessionsManager.createSession e.random session (networkClientInfo r e) with
  | none => (none, h)
  | some (sessionID, maxAge, m) =>
    let impersonatorSessionID := h.currentSessionId
    let h := { h with sessionsManager := m, sessionID := sessionID, sessionMaxAge := maxAge }
    if sessionID = "" then (some .S_503_SERVICE_UNAVAILABLE, h)
    else
      let isImpersonation := token.hasClaim "impersonator"
      let h := { h with
        authSession := some session
        currentSessionId := sessionID
        events := h.events ++ [AuthEvent.loggedIn sessionID] }
      let h := h.setSecureCookie "sessionId" sessionID maxAge
      (some .S_200_OK,
        if isImpersonation then
          h.setSecureCookie "impersonatorSessionId" impersonatorSessionID maxAge
        else h)

/-- `handleAuthLoginFunction`; `none` if it throws. -/
def handleAuthLoginFunction (h : ClientHandler) : Option StatusCode × ClientHandler :=
  if r.origin ∉ config.permittedLoginOrigins then (some .S_401_UNAUTHORIZED, h)
  else
    match loginToken config r e with
    | none => (none, h)
    | some (.accepted token) =>
      match refuseLogin config token h.currentWebSession with
      | some code => (some code, h)
      | none => createLoginSession r e h token
    | some _ => (some .S_307_TEMPORARY_REDIRECT, h)

def handleAuthLogoutFunction (h : ClientHandler) : StatusCode × ClientHandler :=
  if r.origin ≠ "" ∨ validateSessionAntiCSRFMechanism r = false then
    (.S_405_METHOD_NOT_ALLOWED, h)
  else
    (.S_202_ACCEPTED,
      { h with destroySession := true, events := h.events ++ [AuthEvent.logoutAccepted] })

def handleAuthUpdateLastActivityFunction (h : ClientHandler) : StatusCode × ClientHandler :=
  if r.origin ≠ "" ∨ validateSessionAntiCSRFMechanism r = false then
    (.S_405_METHOD_NOT_ALLOWED, h)
  else (.S_202_ACCEPTED, h.withManager (h.sessionsManager.updateLastActivity h.sessionID e.now))

/-- `handleAuthRetrieveInfoFunction`, up to the text of the answer. -/
def handleAuthRetrieveInfoFunction (h : ClientHandler) : StatusCode × ClientHandler :=
  match h.authSession with
  | none => (.S_200_OK, h)
  | some session => (.S_200_OK, h.withManager (h.sessionsManager.getUserSessionsInfo session.user))

def handleAuthFunctions (h : ClientHandler) (authFunctionName : String) :
    Option StatusCode × ClientHandler :=
  if authFunctionName = "login" then handleAuthLoginFunction config r e h
  else if authFunctionName = "login_redirect" ∧ h.currentWebSession.isNone then
    (some .S_307_TEMPORARY_REDIRECT, h)
  else if authFunctionName = "retrieveInfo" ∧ h.currentWebSession.isSome then
    let (code, h) := handleAuthRetrieveInfoFunction h
    (some code, h)
  else if authFunctionName = "updateLastActivity" ∧ h.currentWebSession.isSome then
    let (code, h) := handleAuthUpdateLastActivityFunction r e h
    (some code, h)
  else if authFunctionName = "logout" ∧ h.currentWebSession.isSome then
    let (code, h) := handleAuthLogoutFunction r h
    (some code, h)
  else (some .S_404_NOT_FOUND, h)

/-! ### The middle of a request -/

/-- What the resource filter sees of a session. -/
def sessionView (session : Option Session) : SessionView where
  permissions := (session.map (·.jwtAuthenticatedInfo.getAllPermissions)).getD ∅
  roles := (session.map (·.jwtAuthenticatedInfo.getAllRoles)).getD ∅
  isSessionActive := session.isSome

/-- The status of `handleRegularFileRequest`. -/
def regularFileStatus (session : Option Session) : Option StatusCode :=
  (APIClientHandler.handleRegularFileRequest config.regexMatch e.fileSystem e.engine
    config.toAPIServerParameters (sessionView session)
    { uri := r.uri
      staticContentElements := config.staticContentElements
      mimeTypes := config.mimeTypes }).map Prod.fst

/-- A method that ran updates the activity of the session, if it is one of those that do. -/
def updateActivityOnUsage (h : ClientHandler) : ClientHandler :=
  if e.updatesLastActivity && h.currentWebSession.isSome then
    h.withManager (h.sessionsManager.updateLastActivity h.sessionID e.now)
  else h

/-- The branch that the request takes. -/
def handleRoute (h : ClientHandler) : Route → Option StatusCode × ClientHandler
  | .api apiVersion resource =>
    (e.handleAPIRequest apiVersion resource h.authSession, updateActivityOnUsage e h)
  | .apiVersionOutOfRange => (none, h)
  | .apiDisallowedOrigin => (some .S_401_UNAUTHORIZED, h)
  | .auth authFunction => handleAuthFunctions config r e h authFunction
  | .info => (some .S_200_OK, h)
  | .dynamic route dynUrlWithoutBase => (e.handler route dynUrlWithoutBase, h)
  | .regularFile => (regularFileStatus config r e h.authSession, updateActivityOnUsage e h)

/-! ### The end of a request -/

/-- The cookies of a logout. -/
def logoutCookies (h : ClientHandler) (parent : Option (WebSession × ℕ)) : ClientHandler :=
  match parent with
  | none =>
    ((h.addCookieClearSecure "jsSessionTimeout").addCookieClearSecure
      "jsSessionHalfID").addCookieClearSecure "sessionId"
  | some (_, parentSessionMaxAge) =>
    ((((h.setJSSessionTimeOutCookie parentSessionMaxAge).setJSSessionHalfIDCookie
      h.impersonatorSessionID).addCookieClearSecure "impersonatorSessionId").setSecureCookie
        "sessionId" h.impersonatorSessionID h.sessionMaxAge)

/-- How `sessionCleanup` ends. -/
inductive Finish where
  | done
  | threw
  | blocked
deriving DecidableEq

/-- The first part of `sessionLogout`: is there an impersonator to go back to.  `none` if the
release throws. -/
def findParent (h : ClientHandler) : Option (Option (WebSession × ℕ)) × ClientHandler :=
  match h.sessionsManager.openSession h.impersonatorSessionID e.now with
  | (none, m) => (some none, h.withManager m)
  | (some parent, m) =>
    match m.releaseSession h.impersonatorSessionID with
    | (.invalidClose, m) => (none, h.withManager m)
    | (_, m) => (some (some parent), h.withManager m)

/-- The last part of `sessionLogout`: whatever the request was, its session is
destroyed. -/
def destroyCurrentSession (h : ClientHandler) : Finish × ClientHandler :=
  if h.sessionID = "" then (.done, h)
  else
    match h.sessionsManager.destroySession h.sessionID with
    | (.waiting, m) => (.blocked, h.withManager m)
    | (.unregistered, m) => (.threw, h.withManager m)
    | (.invalidClose, m) => (.threw, h.withManager m)
    | (_, m) => (.done, h.withManager m)

def sessionLogout (h : ClientHandler) : Finish × ClientHandler :=
  if !validateSessionIDFormat r.sessionId then (.done, h)
  else
    match findParent e h with
    | (none, h) => (.threw, h)
    | (some parent, h) =>
      destroyCurrentSession (if h.destroySession then h.logoutCookies parent else h)

def sessionCleanup (h : ClientHandler) : Finish × ClientHandler :=
  if h.authSession.isSome then
    let h := ((h.setJSSessionTimeOutCookie h.sessionMaxAge).setJSSessionHalfIDCookie
      h.sessionID).setSecureCookie "sessionId" h.sessionID h.sessionMaxAge
    match h.sessionsManager.releaseSession h.sessionID with
    | (.invalidClose, m) => (.threw, h.withManager m)
    | (_, m) => sessionLogout r e (h.withManager m)
  else sessionLogout r e h

/-! ### A whole request -/

/-- The request after `sessionStart` let it pass. -/
def serve (h : ClientHandler) : Outcome × ClientHandler :=
  match handleRoute config r e h (route config r) with
  | (none, h) => (.threw, h)
  | (some code, h) =>
    match sessionCleanup r e h with
    | (.done, h) => (.answered code, h)
    | (.threw, h) => (.threw, h)
    | (.blocked, h) => (.blocked, h)

/-- `procHTTPClientContent`. -/
def procHTTPClientContent (h : ClientHandler) : Outcome × ClientHandler :=
  if isSupportedUserAgent r.userAgent then (.answered .S_426_UPGRADE_REQUIRED, h)
  else if (config.redirections r.uri).isSome then (.answered .S_307_TEMPORARY_REDIRECT, h)
  else
    match sessionStart config r e h with
    | (none, h) => (.threw, h)
    | (some code, h) => if code ≠ .S_200_OK then (.answered code, h) else serve config r e h

end ClientHandler

/-! ## The server -/

/-- What happens to the sessions: a request, a round of the garbage collector, or a thread
that waited goes on. -/
inductive ServerOp where
  | request (r : Request) (e : Surroundings)
  | gcVisit (key : String) (now : ℤ)
  | wake (key : String)

/-- The end of a request, with its logins and logouts. -/
structure Answer where
  outcome : Outcome
  events : List AuthEvent
deriving DecidableEq

namespace WebSessionsManager

variable {Regex : Type*} (config : WebParameters Regex)

/-- The sessions as a new request finds them; its calls are recorded from here on. -/
def forget (m : WebSessionsManager) : WebSessionsManager :=
  { m with sessions := { m.sessions with calls := [] } }

/-- The handler of a new connection. -/
def newHandler (m : WebSessionsManager) : ClientHandler := { sessionsManager := m.forget }

def step (m : WebSessionsManager) : ServerOp → Option (WebSessionsManager × Option Answer)
  | .request r e =>
    let ended := ClientHandler.procHTTPClientContent config r e m.newHandler
    some (ended.2.sessionsManager, some ⟨ended.1, ended.2.events⟩)
  | .gcVisit key now => some (m.gcVisit key now, none)
  | .wake key => some (m.wake key, none)

end WebSessionsManager

/-! ## A small server -/

/-- Without files, and with one site that may log users in. -/
def sampleWeb : WebParameters String where
  documentRootPath := ""
  permittedLoginOrigins := {"https://login"}
  regexMatch := (· == ·)

def noFiles : FileSystem where
  realpath _ := none
  fileType _ := .special
  readable _ := false
  executable _ := false
  referenceFile _ := none
  lastModified _ := none
  ifstream _ := none

/-- Every token is of the user alice. -/
def sampleSurroundings : Surroundings where
  now := 0
  random := some ("AAAAAAAAAAAA", "BBBBBBBBBBBB")
  verify _ := .accepted { claims := [("sub", .string "alice")] }
  fileSystem := noFiles
  engine := APIClientHandler.sampleEngine

def sampleLogin : Request where
  uri := "/api/auth/login"
  origin := "https://login"
  postVars := some (fun _ => "token")

/-- A request without a session. -/
def sampleInfo : Request where
  uri := "/api/info"

/-- The same request in the session of the login. -/
def sampleSessionInfo : Request where
  uri := "/api/info"
  sessionId := "AAAAAAAAAAAA:BBBBBBBBBBBB"
  halfSessionID := "AAAAAAAAAAAA"

end Mantids
