/-
# RESTful resources

`API::RESTful::MethodsHandler` (`API_RESTful/methodshandler.cpp`) keeps the resources of four HTTP
methods in four tables.  `invokeResource` finds a resource, checks what it asks of the caller, and
runs its handler.

* `MethodsHandler` — the tables, with `addResource` and `invokeResource`;
* `registered` — the definition that a sequence of `addResource` calls leaves for a resource;
* `FoundExactly`, `RunGuarded` — a resource is reported missing exactly if there is none, and a
  handler is run for those who may run it only;
* `invoked_exactly_iff` — where both hold.

The end of the search is compared with the end of the table of GET, whichever table was searched.
-/
import Mantids.Response
import Mantids.Json

namespace Mantids

namespace RESTful

/-! ## What a call works on -/

/-- `MethodsHandler::MethodMode`. -/
inductive MethodMode where
  | GET
  | POST
  | PUT
  | DELETE
deriving DecidableEq, Repr

/-- `methodModeToString`. -/
def methodModeToString : MethodMode → String
  | .GET => "GET"
  | .POST => "POST"
  | .PUT => "PUT"
  | .DELETE => "DELETE"

/-- `MethodsHandler::ErrorCodes`. -/
inductive ErrorCode where
  | SUCCESS
  | INVALID_METHOD_MODE
  | RESOURCE_NOT_FOUND
  | AUTHENTICATION_REQUIRED
  | INSUFFICIENT_PERMISSIONS
  | INTERNAL_ERROR
deriving DecidableEq, Repr

/-- `APIReturn`, with the members of its body. -/
structure APIReturn where
  httpResponseCode : StatusCode := .S_200_OK
  body : Json.Members := []

def APIReturn.setError (r : APIReturn) (httpResponseCode : StatusCode) (error message : String) :
    APIReturn where
  httpResponseCode := httpResponseCode
  body := (r.body.set "error" (.string error)).set "message" (.string message)

/-- `StreamableJSON`: its text, and the value that `processValue` reads from it if it can. -/
structure JSONContent where
  text : String
  value : Option Json

/-- `Sessions::ClientDetails`. -/
structure ClientDetails where
  ipAddress : String := ""
  tlsCommonName : String := ""
  userAgent : String := ""

/-- `RequestParameters`, what the handler of a resource is shown of it. -/
structure RequestParameters where
  /-- `clientRequest->getJSONStreamerContent()`. -/
  jsonStreamerContent : Option JSONContent := none
  /-- What `extractClientDetails` reads of the request. -/
  clientDetails : ClientDetails := {}
  /-- The value behind `inputJSON`. -/
  inputJSON : Json := .null

/-- `MethodType`, with its context bound. -/
abbrev Method := RequestParameters → ClientDetails → APIReturn → APIReturn

/-- `RESTfulAPIDefinition::Security`. -/
structure Security where
  requireJWTHeaderAuthentication : Bool := true
  requireJWTCookieAuthentication : Bool := true
  requiredPermissions : Finset String := ∅

/-- `RESTfulAPIDefinition`; a null pointer is `none`. -/
structure RESTfulAPIDefinition where
  method : Option Method := none
  security : Security := {}

/-- `MethodsHandler::SecurityParameters`. -/
structure SecurityParameters where
  haveJWTAuthHeader : Bool := false
  haveJWTAuthCookie : Bool := false

/-! ## The tables -/

/-- `MethodsHandler`. -/
structure MethodsHandler where
  methodsGET : Finmap (fun _ : String => RESTfulAPIDefinition) := ∅
  methodsPOST : Finmap (fun _ : String => RESTfulAPIDefinition) := ∅
  methodsPUT : Finmap (fun _ : String => RESTfulAPIDefinition) := ∅
  methodsDELETE : Finmap (fun _ : String => RESTfulAPIDefinition) := ∅

/-- An iterator of one of the tables.  Those of different tables are different. -/
inductive TableIterator where
  | element (mode : MethodMode) (resourceName : String)
  | endOf (mode : MethodMode)
deriving DecidableEq

/-- What `invokeResource` does: it returns a code, with the response and the handler that it ran,
or it writes to a response that is not there. -/
inductive Invocation where
  | returned (code : ErrorCode) (apiResponse : Option APIReturn) (ran : Option Method)
  | nullDereference

/-- The code that is returned. -/
def Invocation.code : Invocation → Option ErrorCode
  | .returned code _ _ => some code
  | .nullDereference => none

/-- The handler that was run. -/
def Invocation.ran : Invocation → Option Method
  | .returned _ _ ran => ran
  | .nullDereference => none

/-- A return without a run, with the error in the response if there is one. -/
def refused (code : ErrorCode) (apiResponse : Option APIReturn) (httpResponseCode : StatusCode)
    (message : String) : Invocation :=
  .returned code (apiResponse.map (·.setError httpResponseCode "invalid_invokation" message)) none

namespace MethodsHandler

def table (h : MethodsHandler) : MethodMode → Finmap (fun _ : String => RESTfulAPIDefinition)
  | .GET => h.methodsGET
  | .POST => h.methodsPOST
  | .PUT => h.methodsPUT
  | .DELETE => h.methodsDELETE

/-- `addResource` with a definition, which always succeeds for the four modes. -/
def addResource (h : MethodsHandler) (mode : MethodMode) (resourceName : String)
    (method : RESTfulAPIDefinition) : MethodsHandler :=
  match mode with
  | .GET => { h with methodsGET := h.methodsGET.insert resourceName method }
  | .POST => { h with methodsPOST := h.methodsPOST.insert resourceName method }
  | .PUT => { h with methodsPUT := h.methodsPUT.insert resourceName method }
  | .DELETE => { h with methodsDELETE := h.methodsDELETE.insert resourceName method }

/-- The definition that the other `addResource` puts together; the two bits of the options are
`REQUIRE_JWT_HEADER_AUTH` and `REQUIRE_JWT_COOKIE_AUTH`. -/
def definitionOf (method : Option Method) (securityOptions : ℕ)
    (requiredPermissions : Finset String) : RESTfulAPIDefinition where
  method := method
  security :=
    { requireJWTHeaderAuthentication := securityOptions.testBit 0
      requireJWTCookieAuthentication := securityOptions.testBit 1
      requiredPermissions := requiredPermissions }

/-- The `switch` of `invokeResource`: the iterator, and the definition that is copied if there is
one. -/
def search (h : MethodsHandler) (mode : MethodMode) (resourceName : String) :
    TableIterator × RESTfulAPIDefinition :=
  match (h.table mode).lookup resourceName with
  | some method => (.element mode resourceName, method)
  | none => (.endOf mode, {})

/-- The end of `invokeResource`: the handler is run with the parameters. -/
def runMethod (method : RESTfulAPIDefinition) (inputParameters : RequestParameters)
    (apiResponse : Option APIReturn) : Invocation :=
  match method.method, apiResponse with
  | some m, some r =>
    .returned .SUCCESS (some (m inputParameters inputParameters.clientDetails r)) (some m)
  | _, _ => refused .INTERNAL_ERROR apiResponse .S_500_INTERNAL_SERVER_ERROR "Internal error"

/-- The content of the request is read, if it has any. -/
def readInput (method : RESTfulAPIDefinition) (inputParameters : RequestParameters)
    (apiResponse : Option APIReturn) : Invocation :=
  match inputParameters.jsonStreamerContent with
  | none => runMethod method inputParameters apiResponse
  | some content =>
    if content.text = "" then runMethod method inputParameters apiResponse
    else
      match content.value, apiResponse with
      | some value, _ => runMethod method { inputParameters with inputJSON := value } apiResponse
      -- the response is written to without a look at the pointer
      | none, none => .nullDereference
      | none, some r =>
        refused .INTERNAL_ERROR (some r) .S_400_BAD_REQUEST "Bad Input JSON Parsing"

/-- `invokeResource`. -/
def invokeResource (h : MethodsHandler) (mode : MethodMode) (resourceName : String)
    (inputParameters : RequestParameters) (currentPermissions : Finset String)
    (securityParameters : SecurityParameters) (apiResponse : Option APIReturn) : Invocation :=
  let (it, method) := h.search mode resourceName
  if it = .endOf .GET then
    refused .RESOURCE_NOT_FOUND apiResponse .S_404_NOT_FOUND "Resource not found"
  else if method.security.requireJWTHeaderAuthentication &&
      !securityParameters.haveJWTAuthHeader then
    refused .AUTHENTICATION_REQUIRED apiResponse .S_403_FORBIDDEN
      "JWT Authentication Header Required"
  else if method.security.requireJWTCookieAuthentication &&
      !securityParameters.haveJWTAuthCookie then
    refused .AUTHENTICATION_REQUIRED apiResponse .S_403_FORBIDDEN
      "JWT Authentication Cookie Required"
  else if ¬ method.security.requiredPermissions ⊆ currentPermissions then
    refused .INSUFFICIENT_PERMISSIONS apiResponse .S_401_UNAUTHORIZED "Insufficient permissions"
  else readInput method inputParameters apiResponse

/-- `invokeResource` by the name of the mode. -/
def invokeResourceByName (h : MethodsHandler) (modeStr resourceName : String)
    (inputParameters : RequestParameters) (currentPermissions : Finset String)
    (securityParameters : SecurityParameters) (apiResponse : Option APIReturn) : Invocation :=
  let invoke mode := h.invokeResource mode resourceName inputParameters currentPermissions
    securityParameters apiResponse
  if modeStr = "GET" then invoke .GET
  else if modeStr = "POST" then invoke .POST
  else if modeStr = "PUT" then invoke .PUT
  else if modeStr = "DELETE" then invoke .DELETE
  else refused .INVALID_METHOD_MODE apiResponse .S_400_BAD_REQUEST "Invalid method mode string"

/-! ## What was registered -/

/-- A call of one of the two `addResource`. -/
inductive Registration where
  | withOptions (mode : MethodMode) (resourceName : String) (method : Option Method)
      (securityOptions : ℕ) (requiredPermissions : Finset String)
  | withDefinition (mode : MethodMode) (resourceName : String) (method : RESTfulAPIDefinition)

namespace Registration

def mode : Registration → MethodMode
  | .withOptions mode _ _ _ _ => mode
  | .withDefinition mode _ _ => mode

def resourceName : Registration → String
  | .withOptions _ resourceName _ _ _ => resourceName
  | .withDefinition _ resourceName _ => resourceName

def definition : Registration → RESTfulAPIDefinition
  | .withOptions _ _ method securityOptions requiredPermissions =>
    definitionOf method securityOptions requiredPermissions
  | .withDefinition _ _ method => method

end Registration

/-- A handler after some `addResource` calls. -/
def build (calls : List Registration) : MethodsHandler :=
  calls.foldl (fun h c => h.addResource c.mode c.resourceName c.definition) {}

/-- The definition that some `addResource` calls leave under a mode and a name: the last one. -/
def registered (calls : List Registration) (mode : MethodMode) (resourceName : String) :
    Option RESTfulAPIDefinition :=
  (calls.reverse.find? (fun c => c.mode = mode ∧ c.resourceName = resourceName)).map
    (·.definition)

theorem lookup_addResource (h : MethodsHandler) (mode mode' : MethodMode)
    (resourceName resourceName' : String) (method : RESTfulAPIDefinition) :
    ((h.addResource mode resourceName method).table mode').lookup resourceName' =
      if mode = mode' ∧ resourceName = resourceName' then some method
      else (h.table mode').lookup resourceName' := by
  by_cases hmode : mode = mode'
  · subst hmode
    have htable : (h.addResource mode resourceName method).table mode =
        (h.table mode).insert resourceName method := by
      rcases mode with _ | _ | _ | _ <;> rfl
    rw [htable]
    by_cases hname : resourceName = resourceName'
    · subst hname
      rw [Finmap.lookup_insert, if_pos ⟨rfl, rfl⟩]
    · rw [Finmap.lookup_insert_of_ne _ (Ne.symm hname), if_neg (fun h => hname h.2)]
  · have htable : (h.addResource mode resourceName method).table mode' = h.table mode' := by
      rcases mode with _ | _ | _ | _ <;> rcases mode' with _ | _ | _ | _ <;>
        first | rfl | exact absurd rfl hmode
    rw [htable, if_neg (fun h => hmode h.1)]

/-- The tables hold what was registered. -/
theorem lookup_build (calls : List Registration) (mode : MethodMode) (resourceName : String) :
    ((build calls).table mode).lookup resourceName = registered calls mode resourceName := by
  induction calls using List.reverseRecOn with
  | nil =>
      rcases mode with _ | _ | _ | _ <;> exact Finmap.lookup_empty _
  | append_singleton calls c ih =>
      have hbuild : build (calls ++ [c]) =
          (build calls).addResource c.mode c.resourceName c.definition := by
        simp [build, List.foldl_append]
      rw [hbuild, lookup_addResource, ih]
      simp only [registered, List.reverse_append, List.reverse_singleton, List.singleton_append]
      by_cases hsame : c.mode = mode ∧ c.resourceName = resourceName
      · rw [if_pos hsame, List.find?_cons_of_pos (by simpa using hsame), Option.map_some]
      · rw [if_neg hsame, List.find?_cons_of_neg (by simpa using hsame)]

/-- The search comes to the definition, or to the end of its table. -/
theorem search_build (calls : List Registration) (mode : MethodMode) (resourceName : String) :
    (build calls).search mode resourceName =
      match registered calls mode resourceName with
      | some method => (.element mode resourceName, method)
      | none => (.endOf mode, {}) := by
  rw [search, lookup_build]

/-! ## What a call can do -/

section Call

variable (inputParameters : RequestParameters) (currentPermissions : Finset String)
  (securityParameters : SecurityParameters) (apiResponse : Option APIReturn)

/-- The caller has what a definition asks for. -/
structure MayRun (method : RESTfulAPIDefinition) : Prop where
  header : method.security.requireJWTHeaderAuthentication = true →
    securityParameters.haveJWTAuthHeader = true
  cookie : method.security.requireJWTCookieAuthentication = true →
    securityParameters.haveJWTAuthCookie = true
  permissions : method.security.requiredPermissions ⊆ currentPermissions

/-- A refusal for another reason than a missing resource reports none, and runs no handler. -/
theorem refused_cases {code : ErrorCode} (hcode : code ≠ .RESOURCE_NOT_FOUND)
    (httpResponseCode : StatusCode) (message : String) (P : Method → Prop) :
    (refused code apiResponse httpResponseCode message).code ≠ some .RESOURCE_NOT_FOUND ∧
      ∀ m, (refused code apiResponse httpResponseCode message).ran = some m → P m := by
  refine ⟨fun h => hcode (Option.some.inj h), fun m hm => ?_⟩
  exact absurd hm (by simp [refused, Invocation.ran])

/-- The last part of a call runs the handler of the definition, or none. -/
theorem runMethod_cases (method : RESTfulAPIDefinition) :
    (runMethod method inputParameters apiResponse).code ≠ some .RESOURCE_NOT_FOUND ∧
      ∀ m, (runMethod method inputParameters apiResponse).ran = some m →
        method.method = some m := by
  rcases hmethod : method.method with _ | m
  · simp only [runMethod, hmethod]
    apply refused_cases
    decide
  · rcases apiResponse with _ | r
    · simp only [runMethod, hmethod]
      apply refused_cases
      decide
    · simp [runMethod, hmethod, Invocation.code, Invocation.ran]

theorem readInput_cases (method : RESTfulAPIDefinition) :
    (readInput method inputParameters apiResponse).code ≠ some .RESOURCE_NOT_FOUND ∧
      ∀ m, (readInput method inputParameters apiResponse).ran = some m →
        method.method = some m := by
  unfold readInput
  split
  · exact runMethod_cases _ _ _
  · split
    · exact runMethod_cases _ _ _
    · split
      · exact runMethod_cases _ _ _
      · -- the response that is not there
        exact ⟨by simp [Invocation.code], by simp [Invocation.ran]⟩
      · apply refused_cases
        decide

variable (calls : List Registration) (mode : MethodMode) (resourceName : String)

/-- The call on a handler that was built. -/
abbrev invocation : Invocation :=
  (build calls).invokeResource mode resourceName inputParameters currentPermissions
    securityParameters apiResponse

/-- A resource is reported missing exactly if there is none. -/
def FoundExactly : Prop :=
  (invocation inputParameters currentPermissions securityParameters apiResponse calls mode
      resourceName).code = some .RESOURCE_NOT_FOUND ↔
    registered calls mode resourceName = none

/-- A handler that is run is that of the resource, and the caller has what it asks for. -/
def RunGuarded : Prop :=
  ∀ m, (invocation inputParameters currentPermissions securityParameters apiResponse calls mode
      resourceName).ran = some m →
    ∃ method, registered calls mode resourceName = some method ∧ method.method = some m ∧
      MayRun currentPermissions securityParameters method

/-- A call past the comparison of the iterator is checked against the definition. -/
theorem invokeResource_of_ne (h : MethodsHandler) {it : TableIterator}
    {method : RESTfulAPIDefinition} (hsearch : h.search mode resourceName = (it, method))
    (hne : it ≠ .endOf .GET) :
    (h.invokeResource mode resourceName inputParameters currentPermissions securityParameters
        apiResponse).code ≠ some .RESOURCE_NOT_FOUND ∧
      ∀ m, (h.invokeResource mode resourceName inputParameters currentPermissions
          securityParameters apiResponse).ran = some m →
        method.method = some m ∧ MayRun currentPermissions securityParameters method := by
  simp only [invokeResource, hsearch, if_neg hne]
  split
  · apply refused_cases
    decide
  · rename_i hheader
    split
    · apply refused_cases
      decide
    · rename_i hcookie
      split
      · apply refused_cases
        decide
      · rename_i hpermissions
        obtain ⟨hcode, hran⟩ := readInput_cases inputParameters apiResponse method
        refine ⟨hcode, fun m hm => ⟨hran m hm, ?_, ?_, not_not.mp hpermissions⟩⟩
        · simpa using hheader
        · simpa using hcookie

/-- A handler is run for those who may run it only. -/
theorem run_guarded :
    RunGuarded inputParameters currentPermissions securityParameters apiResponse calls mode
      resourceName := by
  intro m hm
  have hsearch := search_build calls mode resourceName
  rcases hreg : registered calls mode resourceName with _ | method
  · exfalso
    rw [hreg] at hsearch
    by_cases hget : mode = .GET
    · subst hget
      simp only [invocation, invokeResource, hsearch, if_true] at hm
      cases hm
    · -- the empty definition that goes on has no handler
      have hran := (invokeResource_of_ne inputParameters currentPermissions securityParameters
        apiResponse mode resourceName _ hsearch (by simpa using hget)).2 m hm
      cases hran.1
  · rw [hreg] at hsearch
    obtain ⟨hmethod, hmay⟩ := (invokeResource_of_ne inputParameters currentPermissions
      securityParameters apiResponse mode resourceName _ hsearch (by simp)).2 m hm
    exact ⟨method, rfl, hmethod, hmay⟩

theorem foundExactly_iff :
    FoundExactly inputParameters currentPermissions securityParameters apiResponse calls mode
        resourceName ↔
      mode = .GET ∨ registered calls mode resourceName ≠ none := by
  have hsearch := search_build calls mode resourceName
  unfold FoundExactly
  rcases hreg : registered calls mode resourceName with _ | method
  · rw [hreg] at hsearch
    by_cases hget : mode = .GET
    · subst hget
      refine iff_of_true (iff_of_true ?_ rfl) (Or.inl rfl)
      simp only [invocation, invokeResource, hsearch, if_true, refused, Invocation.code]
    · have hcode := (invokeResource_of_ne inputParameters currentPermissions securityParameters
        apiResponse mode resourceName _ hsearch (by simpa using hget)).1
      simp [hcode, hget]
  · rw [hreg] at hsearch
    have hcode := (invokeResource_of_ne inputParameters currentPermissions securityParameters
      apiResponse mode resourceName _ hsearch (by simp)).1
    simp [hcode]

/-- **Resources are found and guarded exactly** for GET, and for a resource that is registered; a
resource that another mode does not have is not reported missing. -/
theorem invoked_exactly_iff :
    FoundExactly inputParameters currentPermissions securityParameters apiResponse calls mode
          resourceName ∧
        RunGuarded inputParameters currentPermissions securityParameters apiResponse calls mode
          resourceName ↔
      mode = .GET ∨ registered calls mode resourceName ≠ none := by
  rw [and_iff_left (run_guarded inputParameters currentPermissions securityParameters apiResponse
    calls mode resourceName), foundExactly_iff]

end Call

/-- By its name a mode is invoked as such. -/
theorem invokeResourceByName_eq (h : MethodsHandler) (mode : MethodMode) :
    h.invokeResourceByName (methodModeToString mode) = h.invokeResource mode := by
  funext resourceName inputParameters currentPermissions securityParameters apiResponse
  rcases mode with _ | _ | _ | _ <;> simp [invokeResourceByName, methodModeToString]

/-- Without any resource, the caller of POST is asked to authenticate. -/
theorem post_not_reported_missing :
    ¬ FoundExactly {} ∅ {} (some {}) [] .POST "users" ∧
      ((build []).invokeResource .POST "users" {} ∅ {} (some {})).code =
        some .AUTHENTICATION_REQUIRED := by
  refine ⟨?_, rfl⟩
  rw [foundExactly_iff]
  simp [registered]

end MethodsHandler

end RESTful

end Mantids
