/-
# The RESTful server

`RESTful::Engine` (`Server_RESTfulWebAPI/engine.cpp`) serves the resources of an application.  Every
request has a `ClientHandler` (`Server_RESTfulWebAPI/clienthandler.cpp`) of its own.  `sessionStart`
takes a token from the `Authorization` header, or else from the cookie `AccessToken`, and has it
verified; `handleAPIRequest` calls the resource with the permissions of that token.

* `RestRequest`, `Circumstances` — what a request brings, and what happens around it;
* `sessionStart`, `procHTTPClientContent` — one request;
* `Resource` — a definition with the calls that its method makes on the validator of the engine;
* `Engine`, `Engine.step` — requests, registrations, and what the application does to the validator;
* `Engine.step_validator` — a step of the engine is a run of its validator.

The body of an answer, and a redirection that a method asks for, are not modelled.
-/
import Mantids.ApiVersions
import Mantids.ClientHandler
import Mantids.Content
import Mantids.Jwt

namespace Mantids

namespace RESTful

open Run JWT

/-! ## Requests -/

/-- `HTTPv1_Base::Request`, what a RESTful server reads of it. -/
structure RestRequest extends Request where
  /-- `requestLine.getRequestMethod()`. -/
  requestMethod : String := "GET"
  /-- The header `Authorization`. -/
  authorization : Bytes := []
  /-- The cookie `AccessToken`. -/
  accessToken : Bytes := []
  jsonStreamerContent : Option JSONContent := none

/-- `APIServerParameters`, with the validator that an application may have of its own: over token
and API key, with the token that it fills in. -/
structure RestParameters (Regex : Type*) extends WebParameters Regex where
  dynamicTokenValidator : Option (Bytes → String → Option Token) := none

/-- What happens around one request. -/
structure Circumstances where
  now : ℤ
  /-- The outcomes of the library calls of a verification. -/
  outcomes : Outcomes := {}
  /-- A dynamic handler: its route and the rest of the path. -/
  handler : String → String → Option StatusCode := fun _ _ => some .S_404_NOT_FOUND
  fileSystem : FileSystem
  engine : HTMLIEngine

/-- `>>` into a string: blanks are skipped, and the text up to the next one is taken. -/
def extractWord (s : Bytes) : Bytes × Bytes :=
  let s := s.dropWhile isspace
  (s.takeWhile (fun c => !isspace c), s.dropWhile (fun c => !isspace c))

def getAuthorizationBearer (authorization : Bytes) : Bytes :=
  let (keyword, rest) := extractWord authorization
  let (headerBearerToken, _) := extractWord rest
  if keyword = ascii "Bearer" then headerBearerToken else []

/-- Where a token comes from. -/
inductive TokenSource where
  | header
  | cookie
deriving DecidableEq

/-- The token that `sessionStart` looks at: the cookie counts only without a token in the header. -/
def presented (r : RestRequest) : Option (TokenSource × Bytes) :=
  let headerBearerToken := getAuthorizationBearer r.authorization
  if headerBearerToken ≠ [] then some (.header, headerBearerToken)
  else if r.accessToken ≠ [] then some (.cookie, r.accessToken)
  else none

/-! ## The session of a request -/

/-- `RESTful::ClientHandler`. -/
structure ClientHandler where
  /-- `m_JWTToken`. -/
  JWTToken : Token := {}
  /-- `m_JWTHeaderTokenVerified`. -/
  JWTHeaderTokenVerified : Bool := false
  /-- `m_JWTCookieTokenVerified`. -/
  JWTCookieTokenVerified : Bool := false

namespace ClientHandler

def isSessionActive (h : ClientHandler) : Bool :=
  h.JWTHeaderTokenVerified || h.JWTCookieTokenVerified

/-- The handler after a token from the source was verified. -/
def verified (source : TokenSource) (token : Token) : ClientHandler where
  JWTToken := token
  JWTHeaderTokenVerified := source = .header
  JWTCookieTokenVerified := source = .cookie

def getSessionPermissions (h : ClientHandler) : Finset String :=
  if h.isSessionActive then h.JWTToken.getAllPermissions else ∅

def getSessionRoles (h : ClientHandler) : Finset String :=
  if h.isSessionActive then h.JWTToken.getAllRoles else ∅

/-- The token that a method is shown. -/
def shownToken (h : ClientHandler) : Token := if h.isSessionActive then h.JWTToken else {}

end ClientHandler

section Session

variable (K : Libraries) {Regex : Type*} (config : RestParameters Regex) (r : RestRequest)
  (e : Circumstances)

/-- The token that an accepted text fills in. -/
def tokenOf (o : Outcomes) (strToken : Bytes) : Option Token :=
  (segments strToken).bind fun seg =>
    (K.claims (decodeFromBase64 K o.payloadDecoded seg.2.1)).map fun members =>
      ⟨members, true, false⟩

/-- The token is for this application. -/
def isForApplication (token : Token) : Bool := (token.getClaim "app").asStringD "" = config.appName

/-- What `verifyToken` makes of the verdict of the validator. -/
def verificationOf (strToken : Bytes) : Option Verdict → Verification
  | some .accepted =>
    match tokenOf K e.outcomes strToken with
    | some token => if isForApplication config token then .accepted token else .rejected
    | none => .rejected
  | some .threw => .threw
  | _ => .rejected

/-- The call that a verification makes on the validator of the engine. -/
def verificationCalls (strToken : Bytes) : List JWT.Op :=
  if config.dynamicTokenValidator.isSome then [] else [.verify strToken e.now e.outcomes]

/-- The verification of a token, by `verifyToken` or by the validator of the application; with no
result if the validator of the engine breaks down. -/
def verifyPresented (v : Validator) (strToken : Bytes) : Option (Validator × Verification) :=
  match config.dynamicTokenValidator with
  | some validate =>
    some (v, match validate strToken r.xAPIKEY with
      | some token => .accepted token
      | none => .rejected)
  | none =>
    (JWT.step K v (.verify strToken e.now e.outcomes)).map fun x =>
      (x.1, verificationOf K config e strToken x.2)

/-- `sessionStart`, with the calls that it makes; there is no handler after an exception.  What a
token that is refused leaves in `m_JWTToken` is not read. -/
def sessionStart (v : Validator) : Option (Validator × List JWT.Op × Option ClientHandler) :=
  match presented r with
  | none => some (v, [], some {})
  | some (source, strToken) =>
    (verifyPresented K config r e v strToken).map fun x =>
      (x.1, verificationCalls config e strToken,
        match x.2 with
        | .accepted token => some (.verified source token)
        | .rejected => some {}
        | .threw => none)

end Session

/-! ## Resources -/

/-- A resource as it is registered.  A method has a pointer to its engine, and may use the validator
there. -/
structure Resource where
  definition : RESTfulAPIDefinition
  /-- The calls that the method makes on the validator, for what it is shown. -/
  validatorCalls : RequestParameters → Token → List JWT.Op := fun _ _ => []

/-- A call of `addResource`. -/
structure Registered where
  mode : MethodMode
  resourceName : String
  resource : Resource

def Registered.registration (x : Registered) : MethodsHandler.Registration :=
  .withDefinition x.mode x.resourceName x.resource.definition

/-- What the tables of a version are asked about. -/
def Registered.Is (x : Registered) (mode : MethodMode) (resourceName : String) : Prop :=
  x.mode = mode ∧ x.resourceName = resourceName

instance (x : Registered) (mode : MethodMode) (resourceName : String) :
    Decidable (x.Is mode resourceName) :=
  inferInstanceAs (Decidable (_ ∧ _))

/-- The entry that some `addResource` calls leave under a mode and a name. -/
def entry (calls : List Registered) (mode : MethodMode) (resourceName : String) :
    Option Registered :=
  calls.reverse.find? (fun x => x.Is mode resourceName)

/-- The handler of a version. -/
def methodsHandlerOf (calls : List Registered) : MethodsHandler :=
  MethodsHandler.build (calls.map Registered.registration)

/-- The mode of a request method. -/
def methodModeOf (modeStr : String) : Option MethodMode :=
  if modeStr = "GET" then some .GET
  else if modeStr = "POST" then some .POST
  else if modeStr = "PUT" then some .PUT
  else if modeStr = "DELETE" then some .DELETE
  else none

/-- The calls of the method `revokeJWT`. -/
def revokeJWT (K : Libraries) (pathParameters : Json.Members) : List JWT.Op :=
  [.addToRevocationList
    (decodeFromBase64 K true
      ((Json.Members.get pathParameters "signature").asStringD "").toUTF8.toList)
    (toTimeT ((Json.Members.get pathParameters "expiration").asUInt64D 0))]

/-- The resource that the constructor of the engine registers.  The path parameters of a call are
never filled in. -/
def revokeResource (K : Libraries) : Resource where
  definition :=
    { method := some (fun _ _ apiReturn => apiReturn)
      security := { requiredPermissions := {"IAM"} } }
  validatorCalls _ _ := revokeJWT K []

/-! ## A request -/

/-- The method that was run, with the token it was shown. -/
structure Ran where
  apiVersion : UInt32
  methodName : String
  method : Method
  /-- What the tables have under that name. -/
  entry : Registered
  jwtToken : Token

/-- The end of a request. -/
structure Served where
  outcome : Outcome
  ran : Option Ran := none
  /-- The calls on the validator of the engine, in their order. -/
  validatorCalls : List JWT.Op := []

section Serving

variable (K : Libraries) {Regex : Type*} (config : RestParameters Regex) (r : RestRequest)
  (e : Circumstances) (resources : UInt32 → Option (List Registered)) (h : ClientHandler)

/-- What `invokeResource` is called with. -/
def apiCall : Call where
  methodMode := r.requestMethod
  inputParameters :=
    { jsonStreamerContent := r.jsonStreamerContent
      clientDetails :=
        { ipAddress := r.REMOTE_ADDR, tlsCommonName := r.tlsCommonName, userAgent := r.userAgent } }
  currentPermissions := h.getSessionPermissions
  securityParameters :=
    { haveJWTAuthHeader := h.JWTHeaderTokenVerified
      haveJWTAuthCookie := h.JWTCookieTokenVerified }

/-- The parameters that a method is shown: its input has been read. -/
def shownParameters (c : Call) : RequestParameters :=
  match c.inputParameters.jsonStreamerContent.bind (·.value) with
  | some value => { c.inputParameters with inputJSON := value }
  | none => c.inputParameters

/-- `invokeResource` of the handler of a version, if there is one. -/
def invoked (apiVersion : UInt32) (methodName : String) : Option Invocation :=
  (resources apiVersion).map fun calls =>
    let c := apiCall r h
    (methodsHandlerOf calls).invokeResourceByName c.methodMode methodName c.inputParameters
      c.currentPermissions c.securityParameters (some c.apiReturn)

/-- The method that `invokeResource` ran, and the entry under the name that it was called with. -/
def ranEntry (apiVersion : UInt32) (methodName : String) : Option (Method × Registered) :=
  ((invoked r resources h apiVersion methodName).bind Invocation.ran).bind fun method =>
    (resources apiVersion).bind fun calls =>
      (methodModeOf r.requestMethod).bind fun mode =>
        (entry calls mode methodName).map fun x => (method, x)

/-- `handleAPIRequest`, with the run that it makes. -/
def serveAPI (apiVersion : UInt32) (methodName : String) : Served :=
  let ran := (ranEntry r resources h apiVersion methodName).map fun x =>
    { apiVersion := apiVersion
      methodName := methodName
      method := x.1
      entry := x.2
      jwtToken := h.shownToken }
  { outcome :=
      match invoked r resources h apiVersion methodName with
      | none => .answered .S_404_NOT_FOUND
      | some (.returned _ (some apiReturn) _) => .answered apiReturn.httpResponseCode
      | some _ => .threw
    ran := ran
    validatorCalls :=
      match ran with
      | some x => x.entry.resource.validatorCalls (shownParameters (apiCall r h)) x.jwtToken
      | none => [] }

/-- The answer is that of `handleAPIRequest` with the tables of the handlers. -/
theorem serveAPI_outcome {methodsHandler : Finmap (fun _ : UInt32 => MethodsHandler)}
    (htables : ∀ v, methodsHandler.lookup v = (resources v).map methodsHandlerOf)
    (apiVersion : UInt32) (methodName : String) :
    (serveAPI r resources h apiVersion methodName).outcome =
      match (handleAPIRequest methodsHandler apiVersion methodName (apiCall r h)).answer with
      | some apiReturn => .answered apiReturn.httpResponseCode
      | none => .threw := by
  simp only [serveAPI, invoked, handleAPIRequest, handleByVersion, htables]
  cases resources apiVersion with
  | none => rfl
  | some calls =>
      simp only [Option.map_some]
      cases (methodsHandlerOf calls).invokeResourceByName (apiCall r h).methodMode methodName
        (apiCall r h).inputParameters (apiCall r h).currentPermissions
        (apiCall r h).securityParameters (some (apiCall r h).apiReturn) with
      | returned code apiReturn ran => cases apiReturn <;> rfl
      | nullDereference => rfl

/-- The status of `handleRegularFileRequest`. -/
def regularFileStatus : Option StatusCode :=
  (APIClientHandler.handleRegularFileRequest config.regexMatch e.fileSystem e.engine
    config.toAPIServerParameters
    { permissions := h.getSessionPermissions
      roles := h.getSessionRoles
      isSessionActive := h.isSessionActive }
    { uri := r.uri
      staticContentElements := config.staticContentElements
      mimeTypes := config.mimeTypes }).map Prod.fst

/-- The outcome of a branch that runs no method. -/
def outcomeOf : Option StatusCode → Outcome
  | some code => .answered code
  | none => .threw

/-- The branch that a request takes.  The version is cut to 32 bits. -/
def handleRoute : Route → Served
  | .api apiVersion resource =>
    serveAPI r resources h (UInt32.ofNat apiVersion) (pathMethodName resource)
  | .apiVersionOutOfRange => { outcome := .threw }
  | .apiDisallowedOrigin => { outcome := .answered .S_401_UNAUTHORIZED }
  | .auth _ => { outcome := .answered .S_501_NOT_IMPLEMENTED }
  | .info => { outcome := .answered .S_200_OK }
  | .dynamic route dynUrlWithoutBase => { outcome := outcomeOf (e.handler route dynUrlWithoutBase) }
  | .regularFile => { outcome := outcomeOf (regularFileStatus config r e h) }

/-- The request after the browser test and the redirections. -/
def serve (v : Validator) : Option (Validator × Served) :=
  (sessionStart K config r e v).bind fun x =>
    match x.2.2 with
    | none => some (x.1, { outcome := .threw, validatorCalls := x.2.1 })
    | some h =>
      let served := handleRoute config r e resources h (route config.toWebParameters r.toRequest)
      -- a method works on the validator that the verification has left
      (reach (JWT.step K) x.1 served.validatorCalls).map fun v =>
        (v, { served with validatorCalls := x.2.1 ++ served.validatorCalls })

/-- `procHTTPClientContent`.  No branch marks a session to be destroyed, so that `sessionCleanup`
does nothing. -/
def procHTTPClientContent (v : Validator) : Option (Validator × Served) :=
  if isSupportedUserAgent r.userAgent then some
    (v, { outcome := .answered .S_426_UPGRADE_REQUIRED })
  else if (config.redirections r.uri).isSome then
    some (v, { outcome := .answered .S_307_TEMPORARY_REDIRECT })
  else serve K config r e resources v

end Serving

/-! ## The engine -/

/-- `RESTful::Engine`. -/
structure Engine where
  /-- `config.jwtValidator`. -/
  validator : Validator
  /-- `methodsHandler`: for each version, what was registered with its handler. -/
  resources : UInt32 → Option (List Registered)

/-- What happens to an engine: a request; the application gives a version a new handler, registers a
resource, or calls the validator. -/
inductive EngineOp where
  | request (r : RestRequest) (e : Circumstances)
  | newVersion (apiVersion : UInt32)
  | addResource (apiVersion : UInt32) (x : Registered)
  | validator (op : JWT.Op)

namespace Engine

/-- The engine as its constructor leaves it, with a new validator. -/
def new (K : Libraries) (algorithm : Algorithm) (enabled : Bool) : Engine where
  validator := fresh algorithm enabled
  resources :=
    Function.update (fun _ => none) 0 (some [⟨.POST, "revokeJWT", revokeResource K⟩])

variable (K : Libraries) {Regex : Type*} (config : RestParameters Regex)

/-- One step, with the end of a request.  There is none for a resource of a version without a
handler, and none if the validator breaks down. -/
def step (g : Engine) : EngineOp → Option (Engine × Option Served)
  | .request r e =>
    (procHTTPClientContent K config r e g.resources g.validator).map fun x =>
      ({ g with validator := x.1 }, some x.2)
  | .newVersion apiVersion =>
    some ({ g with resources := Function.update g.resources apiVersion (some []) }, none)
  | .addResource apiVersion x =>
    (g.resources apiVersion).map fun calls =>
      ({ g with resources := Function.update g.resources apiVersion (some (calls ++ [x])) }, none)
  | .validator op => (JWT.step K g.validator op).map fun x => ({ g with validator := x.1 }, none)

/-- The calls on the validator that a step makes. -/
def callsOf : EngineOp → Option Served → List JWT.Op
  | .validator op, _ => [op]
  | _, some served => served.validatorCalls
  | _, none => []

end Engine

/-! ## A step is a run of the validator -/

section Simulation

variable {K : Libraries} {Regex : Type*} {config : RestParameters Regex} {r : RestRequest}
  {e : Circumstances} {resources : UInt32 → Option (List Registered)} {v v' : Validator}

theorem verifyPresented_validator {strToken : Bytes} {x : Verification}
    (h : verifyPresented K config r e v strToken = some (v', x)) :
    reach (JWT.step K) v (verificationCalls config e strToken) = some v' := by
  unfold verifyPresented at h
  unfold verificationCalls
  cases hdynamic : config.dynamicTokenValidator with
  | some validate =>
      rw [hdynamic, Option.some.injEq, Prod.mk.injEq] at h
      rw [Option.isSome_some, if_pos rfl, reach, h.1]
  | none =>
      rw [hdynamic] at h
      obtain ⟨⟨u, verdict⟩, hstep, hu⟩ := Option.map_eq_some_iff.mp h
      obtain ⟨rfl, -⟩ := Prod.mk.inj hu
      rw [Option.isSome_none, if_neg (by simp), reach_cons_some hstep]
      rfl

theorem sessionStart_validator {calls : List JWT.Op} {h : Option ClientHandler}
    (hstart : sessionStart K config r e v = some (v', calls, h)) :
    reach (JWT.step K) v calls = some v' := by
  unfold sessionStart at hstart
  cases hpresented : presented r with
  | none =>
      rw [hpresented, Option.some.injEq, Prod.mk.injEq, Prod.mk.injEq] at hstart
      obtain ⟨rfl, rfl, -⟩ := hstart
      rfl
  | some p =>
      rw [hpresented] at hstart
      obtain ⟨⟨u, x⟩, hverify, hu⟩ := Option.map_eq_some_iff.mp hstart
      obtain ⟨rfl, hrest⟩ := Prod.mk.inj hu
      obtain ⟨rfl, -⟩ := Prod.mk.inj hrest
      exact verifyPresented_validator hverify

theorem serve_validator {served : Served} (h : serve K config r e resources v = some (v', served)) :
    reach (JWT.step K) v served.validatorCalls = some v' := by
  obtain ⟨⟨u, calls, handler⟩, hstart, hrest⟩ := Option.bind_eq_some_iff.mp h
  have hreach := sessionStart_validator hstart
  cases handler with
  | none =>
      obtain ⟨rfl, rfl⟩ := Prod.mk.inj (Option.some.inj hrest)
      exact hreach
  | some handler =>
      obtain ⟨w, hmethod, hw⟩ := Option.map_eq_some_iff.mp hrest
      obtain ⟨rfl, rfl⟩ := Prod.mk.inj hw
      show reach (JWT.step K) v (calls ++ _) = some w
      rw [reach_append hreach]
      exact hmethod

/-- **A step of the engine is a run of its validator**, over the calls that the step makes. -/
theorem Engine.step_validator {g g' : Engine} {op : EngineOp} {served : Option Served}
    (h : g.step K config op = some (g', served)) :
    reach (JWT.step K) g.validator (callsOf op served) = some g'.validator := by
  cases op with
  | request r e =>
      obtain ⟨⟨u, x⟩, hproc, hu⟩ := Option.map_eq_some_iff.mp h
      obtain ⟨rfl, rfl⟩ := Prod.mk.inj hu
      show reach (JWT.step K) g.validator x.validatorCalls = some u
      unfold procHTTPClientContent at hproc
      split at hproc
      · obtain ⟨rfl, rfl⟩ := Prod.mk.inj (Option.some.inj hproc)
        rfl
      · split at hproc
        · obtain ⟨rfl, rfl⟩ := Prod.mk.inj (Option.some.inj hproc)
          rfl
        · exact serve_validator hproc
  | newVersion apiVersion =>
      obtain ⟨rfl, rfl⟩ := Prod.mk.inj (Option.some.inj h)
      rfl
  | addResource apiVersion x =>
      obtain ⟨calls, -, hcalls⟩ := Option.map_eq_some_iff.mp h
      obtain ⟨rfl, rfl⟩ := Prod.mk.inj hcalls
      rfl
  | validator op =>
      obtain ⟨⟨u, verdict⟩, hstep, hu⟩ := Option.map_eq_some_iff.mp h
      obtain ⟨rfl, rfl⟩ := Prod.mk.inj hu
      show reach (JWT.step K) g.validator [op] = some u
      rw [reach_cons_some hstep]
      rfl

end Simulation

end RESTful

end Mantids
