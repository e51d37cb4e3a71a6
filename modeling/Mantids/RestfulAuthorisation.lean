/-
# Who calls a resource

What has to be true for a RESTful server to run a method, in every run of its engine: requests in
any order, between the registrations of the application and the calls that it makes on the
validator.

* `CalledBy` — the method is that of the resource which the request names, where the number of the
  version is cut to 32 bits;
* `Genuine` — a token of the engine's own validator: signed, not revoked, in its time and for this
  application;
* `Authorised` — the request presented a token that has what the resource asks for;
* `method_run_authorised` — a method is run for an authorised request only;
* `revokeJWT_revokes_nothing` — the resource `revokeJWT` of the engine is never run.

`sessionStart` looks at one token of a request, that of the header or that of the cookie, so that a
resource that asks for both is out of reach.  Both is what a definition asks for by default.
-/
import Mantids.JwtRevocation
import Mantids.JwtSignature
import Mantids.RestfulServer

namespace Mantids

namespace RESTful

open Run JWT RESTful.MethodsHandler

/-! ## What a definition asks for -/

/-- Not everybody may run the method. -/
def Security.Protected (s : Security) : Prop :=
  s.requireJWTHeaderAuthentication = true ∨ s.requireJWTCookieAuthentication = true ∨
    s.requiredPermissions.Nonempty

/-- The method wants a token in the header and another one in the cookie. -/
def Security.AsksForBoth (s : Security) : Prop :=
  s.requireJWTHeaderAuthentication = true ∧ s.requireJWTCookieAuthentication = true

/-! ## The entries of a table -/

theorem registered_entry (calls : List Registered) (mode : MethodMode) (resourceName : String) :
    registered (calls.map Registered.registration) mode resourceName =
      (entry calls mode resourceName).map (·.resource.definition) := by
  unfold registered entry
  rw [← List.map_reverse, List.find?_map, Option.map_map]
  rfl

theorem entry_is {calls : List Registered} {mode : MethodMode} {resourceName : String}
    {x : Registered} (h : entry calls mode resourceName = some x) :
    x ∈ calls ∧ x.Is mode resourceName :=
  ⟨List.mem_reverse.mp (List.mem_of_find?_eq_some h), by simpa using List.find?_some h⟩

theorem methodModeOf_eq {modeStr : String} {mode : MethodMode}
    (h : methodModeOf modeStr = some mode) : modeStr = methodModeToString mode := by
  unfold methodModeOf at h
  split_ifs at h with hget hpost hput hdelete
  · obtain rfl := Option.some.inj h
    exact hget
  · obtain rfl := Option.some.inj h
    exact hpost
  · obtain rfl := Option.some.inj h
    exact hput
  · obtain rfl := Option.some.inj h
    exact hdelete

/-! ## The call of a method -/

section Call

variable {K : Libraries} {Regex : Type*} {config : RestParameters Regex} {r : RestRequest}
  {e : Circumstances} {resources : UInt32 → Option (List Registered)} {h : ClientHandler}

/-- The method is that of the resource that was registered last for the version, mode and name of
the request, where the number of the version is taken modulo 2^32. -/
structure CalledBy (config : RestParameters Regex) (resources : UInt32 → Option (List Registered))
    (r : RestRequest) (x : Ran) : Prop where
  routed : ∃ version resource, route config.toWebParameters r.toRequest = .api version resource ∧
    x.apiVersion = UInt32.ofNat version ∧ x.methodName = pathMethodName resource
  origin : isOriginAllowed config.toWebParameters r.toRequest x.methodName = true
  mode : r.requestMethod = methodModeToString x.entry.mode
  registered : ∃ calls, resources x.apiVersion = some calls ∧
    entry calls x.entry.mode x.methodName = some x.entry
  method : x.entry.resource.definition.method = some x.method

/-- A request that is routed to a resource comes from an origin that may use it. -/
theorem isOriginAllowed_of_route {config : WebParameters Regex} {r : Request} {version : ℕ}
    {resource : String} (hroute : route config r = .api version resource) :
    isOriginAllowed config r (pathMethodName resource) = true := by
  have hread : readVersion config r ≠ none := fun hnone =>
    (route_of_not_read hnone).2 version resource hroute
  obtain ⟨⟨digits, text⟩, htext⟩ := Option.ne_none_iff_exists'.mp hread
  rw [route_of_readVersion htext] at hroute
  split_ifs at hroute with hrange horigin
  obtain ⟨-, rfl⟩ := Route.api.inj hroute
  simpa using horigin

/-- **What an API call runs.** -/
theorem serveAPI_ran {apiVersion : UInt32} {methodName : String} {x : Ran}
    (hran : (serveAPI r resources h apiVersion methodName).ran = some x) :
    x.apiVersion = apiVersion ∧ x.methodName = methodName ∧ x.jwtToken = h.shownToken ∧
      r.requestMethod = methodModeToString x.entry.mode ∧
      (∃ calls, resources apiVersion = some calls ∧
        entry calls x.entry.mode methodName = some x.entry) ∧
      x.entry.resource.definition.method = some x.method ∧
      MayRun h.getSessionPermissions (apiCall r h).securityParameters x.entry.resource.definition ∧
      (serveAPI r resources h apiVersion methodName).validatorCalls =
        x.entry.resource.validatorCalls (shownParameters (apiCall r h)) x.jwtToken := by
  obtain ⟨⟨m, y⟩, hy, rfl⟩ := Option.map_eq_some_iff.mp hran
  have hcalls : (serveAPI r resources h apiVersion methodName).validatorCalls =
      y.resource.validatorCalls (shownParameters (apiCall r h)) h.shownToken := by
    simp only [serveAPI, hy, Option.map_some]
  obtain ⟨m', hm, hbound⟩ := Option.bind_eq_some_iff.mp hy
  obtain ⟨calls, hresources, hbound⟩ := Option.bind_eq_some_iff.mp hbound
  obtain ⟨mode, hmode, hbound⟩ := Option.bind_eq_some_iff.mp hbound
  obtain ⟨y', hentry, hpair⟩ := Option.map_eq_some_iff.mp hbound
  obtain ⟨rfl, rfl⟩ := Prod.mk.inj hpair
  clear hpair hbound
  obtain ⟨-, rfl, -⟩ := entry_is hentry
  have hrequest := methodModeOf_eq hmode
  suffices hguarded : y'.resource.definition.method = some m' ∧ MayRun h.getSessionPermissions
      (apiCall r h).securityParameters y'.resource.definition from
    ⟨rfl, rfl, rfl, hrequest, ⟨calls, hresources, hentry⟩, hguarded.1, hguarded.2, hcalls⟩
  -- the method that was run is the one of the entry
  rw [invoked, hresources, Option.map_some, Option.bind_some] at hm
  have hname : (apiCall r h).methodMode = methodModeToString y'.mode := hrequest
  simp only [hname, invokeResourceByName_eq] at hm
  obtain ⟨method, hmethod, hown, hmay⟩ := run_guarded _ _ _ _ _ _ _ m' hm
  rw [registered_entry, hentry, Option.map_some, Option.some.injEq] at hmethod
  rw [← hmethod] at hown hmay
  exact ⟨hown, hmay⟩

/-- What a request runs, and which calls it makes on the validator. -/
theorem procHTTPClientContent_ran {v v' : Validator} {served : Served} {x : Ran}
    (h : procHTTPClientContent K config r e resources v = some (v', served))
    (hran : served.ran = some x) :
    CalledBy config resources r x ∧
      ∃ u calls handler, sessionStart K config r e v = some (u, calls, some handler) ∧
        x.jwtToken = handler.shownToken ∧
        MayRun handler.getSessionPermissions (apiCall r handler).securityParameters
          x.entry.resource.definition ∧
        served.validatorCalls = calls ++
          x.entry.resource.validatorCalls (shownParameters (apiCall r handler)) x.jwtToken := by
  unfold procHTTPClientContent at h
  split_ifs at h with hbrowser hredirection
  · obtain ⟨-, rfl⟩ := Prod.mk.inj (Option.some.inj h)
    cases hran
  · obtain ⟨-, rfl⟩ := Prod.mk.inj (Option.some.inj h)
    cases hran
  · obtain ⟨⟨u, calls, handler⟩, hstart, hrest⟩ := Option.bind_eq_some_iff.mp h
    cases handler with
    | none =>
        obtain ⟨-, rfl⟩ := Prod.mk.inj (Option.some.inj hrest)
        cases hran
    | some handler =>
        obtain ⟨w, -, hw⟩ := Option.map_eq_some_iff.mp hrest
        obtain ⟨-, rfl⟩ := Prod.mk.inj hw
        cases hroute : route config.toWebParameters r.toRequest with
        | api version resource =>
            simp only [hroute, handleRoute] at hran
            obtain ⟨hversion, hname, htoken, hmode, hentry, hmethod, hmay, hcalls⟩ :=
              serveAPI_ran hran
            refine ⟨⟨⟨version, resource, hroute, hversion, hname⟩, ?_, hmode, ?_, hmethod⟩, u,
              calls, handler, hstart, htoken, hmay, ?_⟩
            · rw [hname]
              exact isOriginAllowed_of_route hroute
            · rw [hversion, hname]
              exact hentry
            · simp only [handleRoute, hcalls]
        | apiVersionOutOfRange | apiDisallowedOrigin | info | regularFile =>
            simp only [hroute, handleRoute] at hran
            cases hran
        | auth authFunction =>
            simp only [hroute, handleRoute] at hran
            cases hran
        | dynamic route dynUrlWithoutBase =>
            simp only [hroute, handleRoute] at hran
            cases hran

end Call

/-! ## The session of a request -/

section Session

variable {K : Libraries} {Regex : Type*} {config : RestParameters Regex} {r : RestRequest}
  {e : Circumstances} {v v' : Validator}

/-- A token that the validator of the engine accepted for a request. -/
structure Accepted (K : Libraries) (config : RestParameters Regex) (e : Circumstances)
    (v : Validator) (strToken : Bytes) (token : Token) : Prop where
  verified : ∃ v', JWT.step K v (.verify strToken e.now e.outcomes) = some (v', some .accepted)
  claims : tokenOf K e.outcomes strToken = some token
  application : isForApplication config token = true

/-- A token that a request may be served with. -/
def Verified (K : Libraries) (config : RestParameters Regex) (r : RestRequest) (e : Circumstances)
    (v : Validator) (strToken : Bytes) (token : Token) : Prop :=
  match config.dynamicTokenValidator with
  | some validate => validate strToken r.xAPIKEY = some token
  | none => Accepted K config e v strToken token

theorem verified_of_verifyPresented {strToken : Bytes} {token : Token}
    (h : verifyPresented K config r e v strToken = some (v', .accepted token)) :
    Verified K config r e v strToken token := by
  unfold verifyPresented at h
  unfold Verified
  cases hdynamic : config.dynamicTokenValidator with
  | some validate =>
      simp only [hdynamic, Option.some.injEq, Prod.mk.injEq] at h
      show validate strToken r.xAPIKEY = some token
      cases hvalidate : validate strToken r.xAPIKEY with
      | none => simp [hvalidate] at h
      | some t => simpa [hvalidate] using h.2
  | none =>
      simp only [hdynamic] at h
      obtain ⟨⟨u, verdict⟩, hstep, hu⟩ := Option.map_eq_some_iff.mp h
      obtain ⟨rfl, hverification⟩ := Prod.mk.inj hu
      show Accepted K config e v strToken token
      simp only [verificationOf] at hverification
      split at hverification
      · rename_i verdict
        cases htoken : tokenOf K e.outcomes strToken with
        | none => simp [htoken] at hverification
        | some t =>
            simp only [htoken] at hverification
            split_ifs at hverification with happ
            obtain rfl := Verification.accepted.inj hverification
            exact ⟨⟨u, hstep⟩, htoken, happ⟩
      · cases hverification
      · cases hverification

/-- **What a session is made of**: nothing, or the one token that was looked at. -/
theorem sessionStart_cases {calls : List JWT.Op} {h : ClientHandler}
    (hstart : sessionStart K config r e v = some (v', calls, some h)) :
    h = {} ∨ ∃ source strToken token, presented r = some (source, strToken) ∧
      h = .verified source token ∧ Verified K config r e v strToken token ∧
        calls = verificationCalls config e strToken := by
  unfold sessionStart at hstart
  cases hpresented : presented r with
  | none =>
      simp only [hpresented, Option.some.injEq, Prod.mk.injEq] at hstart
      exact Or.inl hstart.2.2.symm
  | some p =>
      obtain ⟨source, strToken⟩ := p
      simp only [hpresented] at hstart
      obtain ⟨⟨u, verification⟩, hverify, hu⟩ := Option.map_eq_some_iff.mp hstart
      obtain ⟨rfl, hrest⟩ := Prod.mk.inj hu
      obtain ⟨rfl, hhandler⟩ := Prod.mk.inj hrest
      cases verification with
      | accepted token =>
          obtain rfl := Option.some.inj hhandler
          exact Or.inr ⟨source, strToken, token, rfl, rfl, verified_of_verifyPresented hverify, rfl⟩
      | rejected => exact Or.inl (Option.some.inj hhandler).symm
      | threw => cases hhandler

end Session

/-! ## Genuine tokens -/

section Genuine

variable {K : Libraries} {Regex : Type*} {config : RestParameters Regex} {r : RestRequest}
  {e : Circumstances} {v v' : Validator}

/-- A call on the validator goes well: the clock does not go back, a signature is checked where it
has to be, and the list of revocations is consulted. -/
def Checked (K : Libraries) (v : Validator) (op : JWT.Op) : Prop :=
  InOrder v op ∧ SignatureChecked K v op ∧ RevocationChecked K v op

/-- A token that is signed under the current key, carries no signature that is revoked for longer,
is in its time, and is for this application. -/
structure Genuine (K : Libraries) (config : RestParameters Regex) (e : Circumstances)
    (v : Validator) (strToken : Bytes) (token : Token) : Prop where
  claims : tokenOf K e.outcomes strToken = some token
  signature : ValidSignature K v.jwt strToken
  unrevoked : ∀ s expires, Carries K strToken s → (s, expires) ∈ v.revoked → expires ≤ e.now
  inTime : token.isValid e.now = true
  application : isForApplication config token = true

/-- What the validator knows is right. -/
structure Sound (K : Libraries) (v : Validator) : Prop where
  allValid : AllValid K v
  remembered : Remembered v

theorem sound_fresh (algorithm : Algorithm) (enabled : Bool) :
    Sound K (fresh algorithm enabled) where
  allValid := fun _ ht => absurd ht List.not_mem_nil
  remembered := fun _ _ h => absurd h List.not_mem_nil

theorem Sound.step {op : JWT.Op} {verdict : Option Verdict} (h : Sound K v) (hop : Checked K v op)
    (hstep : JWT.step K v op = some (v', verdict)) : Sound K v' where
  allValid := h.allValid.step K hop.2.1 hstep
  remembered := h.remembered.step hop.1 hop.2.2 hstep

/-- A token that is accepted is in its time. -/
theorem isValid_of_judge {claims : Option Json.Members} {revoked : Bool} {now : ℤ}
    (h : judge claims true revoked now = .accepted) :
    ∃ members, claims = some members ∧ Token.isValid ⟨members, true, false⟩ now = true := by
  unfold judge at h
  split at h
  · cases h
  · rename_i members
    split_ifs at h with hvalid
    have hrevoked : revoked = false := (Token.verified_of_isValid hvalid).2
    rw [hrevoked] at hvalid
    exact ⟨members, rfl, hvalid⟩

theorem inTime_of_accepted {strToken : Bytes} {token : Token} {o : Outcomes} {now : ℤ}
    (h : JWT.step K v (.verify strToken now o) = some (v', some .accepted))
    (htoken : tokenOf K o strToken = some token) : token.isValid now = true := by
  obtain ⟨⟨j, verdict⟩, hverify, hv⟩ := Option.map_eq_some_iff.mp h
  obtain rfl : verdict = .accepted := Option.some.inj (Prod.mk.inj hv).2
  obtain ⟨⟨header, payload, signature⟩, hsegments, hclaims⟩ := Option.bind_eq_some_iff.mp htoken
  obtain ⟨members, hmembers, rfl⟩ := Option.map_eq_some_iff.mp hclaims
  have hjudge : ∃ revoked, judge (K.claims (decodeFromBase64 K o.payloadDecoded payload)) true
      revoked now = .accepted := by
    unfold verify at hverify
    simp only [hsegments] at hverify
    split at hverify
    · exact ⟨false, (Prod.mk.inj (Option.some.inj hverify)).2⟩
    · split at hverify
      · simp at hverify
      · simp at hverify
      · obtain ⟨cache, -, hcache⟩ := Option.map_eq_some_iff.mp hverify
        exact ⟨_, (Prod.mk.inj hcache).2⟩
  obtain ⟨revoked, hjudge⟩ := hjudge
  obtain ⟨members', hmembers', hvalid⟩ := isValid_of_judge hjudge
  obtain rfl := Option.some.inj (hmembers.symm.trans hmembers')
  exact hvalid

/-- **What is accepted is genuine**, where the validator is sound and the call goes well. -/
theorem Accepted.genuine {strToken : Bytes} {token : Token}
    (h : Accepted K config e v strToken token) (hv : Sound K v)
    (hop : Checked K v (.verify strToken e.now e.outcomes)) :
    Genuine K config e v strToken token := by
  obtain ⟨v', hstep⟩ := h.verified
  refine ⟨h.claims, hv.allValid.accepted K hop.2.1 hstep, fun s expires hcarries hrevoked => ?_,
    inTime_of_accepted hstep h.claims, h.application⟩
  rcases hv.remembered s expires hrevoked with ⟨c, hc, hexpired⟩ | ⟨hlisted, -⟩
  · exact hexpired.trans (hop.1 c hc e.now rfl)
  · exact absurd rfl (not_accepted_of_revoked hop.2.2 hcarries hlisted hstep)

end Genuine

/-! ## Authorised requests -/

section Authorised

variable {K : Libraries} {Regex : Type*} {config : RestParameters Regex} {r : RestRequest}
  {e : Circumstances} {v : Validator} {x : Ran}

/-- The request presented a token, in the place that the resource asks for, with the permissions
that it asks for; and the token is one that the validator of the application accepted, or, without
such a validator, a genuine one. -/
def Authorised (K : Libraries) (config : RestParameters Regex) (r : RestRequest) (e : Circumstances)
    (v : Validator) (x : Ran) : Prop :=
  ∃ source strToken, presented r = some (source, strToken) ∧
    (x.entry.resource.definition.security.requireJWTHeaderAuthentication = true →
      source = .header) ∧
    (x.entry.resource.definition.security.requireJWTCookieAuthentication = true →
      source = .cookie) ∧
    x.entry.resource.definition.security.requiredPermissions ⊆ x.jwtToken.getAllPermissions ∧
    match config.dynamicTokenValidator with
    | some validate => validate strToken r.xAPIKEY = some x.jwtToken
    | none => Genuine K config e v strToken x.jwtToken

/-- Nobody without a token may run a method that is protected. -/
theorem not_protected_of_mayRun {security : SecurityParameters} {definition : RESTfulAPIDefinition}
    (hmay : MayRun ∅ security definition) (hheader : security.haveJWTAuthHeader = false)
    (hcookie : security.haveJWTAuthCookie = false) : ¬ definition.security.Protected := by
  rintro (hasks | hasks | hasks)
  · have := hmay.header hasks
    rw [hheader] at this
    cases this
  · have := hmay.cookie hasks
    rw [hcookie] at this
    cases this
  · obtain ⟨permission, hpermission⟩ := hasks
    exact absurd (hmay.permissions hpermission) (Finset.notMem_empty permission)

/-- **Step lemma.**  What a request runs, it is authorised for. -/
theorem authorised_of_ran {resources : UInt32 → Option (List Registered)} {v' : Validator}
    {served : Served} (h : procHTTPClientContent K config r e resources v = some (v', served))
    (hv : Sound K v) (hchecked : Guarded (JWT.step K) (Checked K) v served.validatorCalls)
    (hran : served.ran = some x) (hprotected : x.entry.resource.definition.security.Protected) :
    Authorised K config r e v x := by
  obtain ⟨-, u, calls, handler, hstart, htoken, hmay, hcalls⟩ := procHTTPClientContent_ran h hran
  rcases sessionStart_cases hstart with
    rfl | ⟨source, strToken, token, hpresented, rfl, hverified, rfl⟩
  · exact absurd hprotected (not_protected_of_mayRun hmay rfl rfl)
  · have hactive : (ClientHandler.verified source token).isSessionActive = true := by
      cases source <;> rfl
    have hshown : x.jwtToken = token := by
      rw [htoken, ClientHandler.shownToken, if_pos hactive]
      rfl
    refine ⟨source, strToken, hpresented, fun hasks => ?_, fun hasks => ?_, ?_, ?_⟩
    · exact of_decide_eq_true (hmay.header hasks)
    · exact of_decide_eq_true (hmay.cookie hasks)
    · have hpermissions := hmay.permissions
      rw [ClientHandler.getSessionPermissions, if_pos hactive] at hpermissions
      rw [hshown]
      exact hpermissions
    · rw [hshown]
      unfold Verified at hverified
      cases hdynamic : config.dynamicTokenValidator with
      | some validate =>
          rw [hdynamic] at hverified
          exact hverified
      | none =>
          rw [hdynamic] at hverified
          have hfirst : Checked K v (.verify strToken e.now e.outcomes) := by
            obtain ⟨w, hw⟩ := hverified.verified
            refine hchecked ⟨v, _, some .accepted, w⟩ ?_
            rw [hcalls, verificationCalls, hdynamic, Option.isSome_none, if_neg (by simp),
              List.singleton_append, transitions_cons_some hw]
            exact List.mem_cons_self
          exact hverified.genuine hv hfirst

/-- The calls that a step makes on the validator go well. -/
def StepChecked (K : Libraries) (config : RestParameters Regex) (g : Engine) (op : EngineOp) :
    Prop :=
  ∀ g' served, g.step K config op = some (g', served) →
    Guarded (JWT.step K) (Checked K) g.validator (Engine.callsOf op served)

theorem Sound.engine {g g' : Engine} {op : EngineOp} {served : Option Served}
    (hg : Sound K g.validator) (hchecked : StepChecked K config g op)
    (hstep : g.step K config op = some (g', served)) : Sound K g'.validator :=
  (hchecked g' served hstep).reach_invariant (Sound K)
    (fun _ _ _ _ h hop hs => h.step hop hs) hg (Engine.step_validator hstep)

end Authorised

/-- Without files, for tokens that name no application. -/
def sampleRest : RestParameters String where
  documentRootPath := ""
  regexMatch := (· == ·)

/-- A resource for whoever has a token in the header. -/
def sampleResource : Registered where
  mode := .GET
  resourceName := "me"
  resource :=
    { definition :=
        { method := some (fun _ _ apiReturn => apiReturn)
          security := { requireJWTCookieAuthentication := false } } }

def sampleCircumstances : Circumstances where
  now := 0
  fileSystem := noFiles
  engine := APIClientHandler.sampleEngine

/-- A request with the token in the header. -/
def sampleRequest (requestMethod uri : String) : RestRequest where
  uri := uri
  requestMethod := requestMethod
  authorization := ascii "Bearer " ++ sampleToken

/-- The application registers a resource, and a request with a signed token asks for it. -/
def sampleOps : List EngineOp :=
  [.newVersion 1, .addResource 1 sampleResource, .validator (.setSharedSecret (ascii "secret")),
    .request (sampleRequest "GET" "/api/v1/me") sampleCircumstances]

section OutOfReach

variable {K : Libraries} {Regex : Type*} {config : RestParameters Regex} {r : RestRequest}
  {e : Circumstances} {v v' : Validator} {x : Ran}

/-- A resource that asks for a token in the header and for one in the cookie is not run. -/
theorem not_asksForBoth_of_ran {resources : UInt32 → Option (List Registered)} {served : Served}
    (h : procHTTPClientContent K config r e resources v = some (v', served))
    (hran : served.ran = some x) : ¬ x.entry.resource.definition.security.AsksForBoth := by
  rintro ⟨hheader, hcookie⟩
  obtain ⟨-, u, calls, handler, hstart, -, hmay, -⟩ := procHTTPClientContent_ran h hran
  have hinHeader : handler.JWTHeaderTokenVerified = true := hmay.header hheader
  have hinCookie : handler.JWTCookieTokenVerified = true := hmay.cookie hcookie
  rcases sessionStart_cases hstart with rfl | ⟨source, _, _, _, rfl, _, _⟩
  · cases hinHeader
  · have h1 : source = .header := of_decide_eq_true hinHeader
    have h2 : source = .cookie := of_decide_eq_true hinCookie
    rw [h1] at h2
    cases h2

/-- A call of `addToRevocationList`. -/
def revocation : JWT.Op → Option (Bytes × ℤ)
  | .addToRevocationList signature expirationTime => some (signature, expirationTime)
  | _ => none

/-- The revocations that the application makes itself. -/
def ownRevocation : EngineOp → Option (Bytes × ℤ)
  | .validator op => revocation op
  | _ => none

/-- The method of a resource revokes nothing, or the resource is out of reach. -/
def Resource.Harmless (x : Resource) : Prop :=
  x.definition.security.AsksForBoth ∨
    ∀ parameters token, ∀ op ∈ x.validatorCalls parameters token, revocation op = none

/-- What the application registers is harmless. -/
def RegistersHarmless : EngineOp → Prop
  | .addResource _ x => x.resource.Harmless
  | _ => True

/-- The list of revocations, and all that were ever made. -/
structure Revoked (revocations : List (Bytes × ℤ)) (v : Validator) : Prop where
  made : v.revoked = revocations
  listed : ∀ s ∈ v.jwt.revocation.revokedTokens, ∃ expires, (s, expires) ∈ revocations

theorem Revoked.step {revocations : List (Bytes × ℤ)} {op : JWT.Op} {verdict : Option Verdict}
    (h : Revoked revocations v) (hstep : JWT.step K v op = some (v', verdict)) :
    Revoked ((revocation op).toList ++ revocations) v' := by
  cases op with
  | verify t now o =>
      obtain ⟨⟨j, verdict⟩, hverify, hv⟩ := Option.map_eq_some_iff.mp hstep
      obtain ⟨rfl, -⟩ := Prod.mk.inj hv
      obtain ⟨cache, rfl⟩ := verify_frame K o hverify
      exact ⟨h.made, h.listed⟩
  | cacheSetMaxByteCount n =>
      obtain ⟨cache, -, hv⟩ := Option.map_eq_some_iff.mp hstep
      obtain ⟨rfl, -⟩ := Prod.mk.inj hv
      exact ⟨h.made, h.listed⟩
  | addToRevocationList s expires =>
      obtain ⟨rfl, -⟩ := Prod.mk.inj (Option.some.inj hstep)
      refine ⟨?_, fun s' hs' => ?_⟩
      · show (s, expires) :: v.revoked = (s, expires) :: revocations
        rw [h.made]
      · rcases Finset.mem_insert.mp hs' with rfl | hs'
        · exact ⟨expires, List.mem_cons_self⟩
        · obtain ⟨expires', hmem⟩ := h.listed s' hs'
          exact ⟨expires', List.mem_cons_of_mem _ hmem⟩
  | removeExpired now =>
      obtain ⟨rfl, -⟩ := Prod.mk.inj (Option.some.inj hstep)
      exact ⟨h.made, fun s hs => h.listed s (Finset.mem_filter.mp hs).1⟩
  | setSharedSecret k | setPublicSecret k | setPrivateSecret k | cacheSetEnabled b | cacheClear =>
      obtain ⟨rfl, -⟩ := Prod.mk.inj (Option.some.inj hstep)
      exact ⟨h.made, h.listed⟩

/-- Calls that revoke nothing leave the revocations as they are. -/
theorem Revoked.reach {revocations : List (Bytes × ℤ)} {calls : List JWT.Op}
    (h : Revoked revocations v) (hcalls : ∀ op ∈ calls, revocation op = none)
    (hreach : reach (JWT.step K) v calls = some v') : Revoked revocations v' := by
  refine reach_invariant (Revoked revocations) (fun u op hop u' verdict hu hstep => ?_) h hreach
  have hu' := hu.step hstep
  rw [hcalls op hop] at hu'
  exact hu'

/-- The methods of all resources revoke nothing or are out of reach. -/
def AllHarmless (resources : UInt32 → Option (List Registered)) : Prop :=
  ∀ apiVersion calls, resources apiVersion = some calls → ∀ x ∈ calls, x.resource.Harmless

theorem AllHarmless.update {resources : UInt32 → Option (List Registered)}
    (h : AllHarmless resources) (apiVersion : UInt32) {calls : List Registered}
    (hcalls : ∀ x ∈ calls, x.resource.Harmless) :
    AllHarmless (Function.update resources apiVersion (some calls)) := by
  intro apiVersion' calls' hcalls'
  by_cases hsame : apiVersion' = apiVersion
  · rw [hsame, Function.update_self, Option.some.injEq] at hcalls'
    rw [← hcalls']
    exact hcalls
  · rw [Function.update_of_ne hsame] at hcalls'
    exact h apiVersion' calls' hcalls'

/-- `sessionStart` only verifies. -/
theorem verify_of_sessionStart {calls : List JWT.Op} {h : Option ClientHandler}
    (hstart : sessionStart K config r e v = some (v', calls, h)) :
    ∀ op ∈ calls, revocation op = none := by
  unfold sessionStart at hstart
  cases hpresented : presented r with
  | none =>
      simp only [hpresented, Option.some.injEq, Prod.mk.injEq] at hstart
      rw [← hstart.2.1]
      exact fun op hop => absurd hop List.not_mem_nil
  | some p =>
      simp only [hpresented] at hstart
      obtain ⟨y, -, hy⟩ := Option.map_eq_some_iff.mp hstart
      obtain ⟨-, hrest⟩ := Prod.mk.inj hy
      rw [← (Prod.mk.inj hrest).1]
      intro op hop
      unfold verificationCalls at hop
      split_ifs at hop
      · exact absurd hop List.not_mem_nil
      · rw [List.mem_singleton.mp hop]
        rfl

/-- A branch that runs no method leaves the validator alone. -/
theorem handleRoute_calls {resources : UInt32 → Option (List Registered)} {h : ClientHandler}
    (branch : Route) (hran : (handleRoute config r e resources h branch).ran = none) :
    (handleRoute config r e resources h branch).validatorCalls = [] := by
  cases branch with
  | api version resource =>
      have hnone : ranEntry r resources h (UInt32.ofNat version) (pathMethodName resource) = none :=
        Option.map_eq_none_iff.mp hran
      simp only [handleRoute, serveAPI, hnone, Option.map_none]
  | apiVersionOutOfRange | apiDisallowedOrigin | info | regularFile => rfl
  | auth authFunction => rfl
  | dynamic route dynUrlWithoutBase => rfl

/-- A request that runs no method only verifies. -/
theorem verify_of_not_ran {resources : UInt32 → Option (List Registered)} {served : Served}
    (h : procHTTPClientContent K config r e resources v = some (v', served))
    (hran : served.ran = none) : ∀ op ∈ served.validatorCalls, revocation op = none := by
  unfold procHTTPClientContent at h
  split_ifs at h with hbrowser hredirection
  · obtain ⟨-, rfl⟩ := Prod.mk.inj (Option.some.inj h)
    exact fun op hop => absurd hop List.not_mem_nil
  · obtain ⟨-, rfl⟩ := Prod.mk.inj (Option.some.inj h)
    exact fun op hop => absurd hop List.not_mem_nil
  · obtain ⟨⟨u, calls, handler⟩, hstart, hrest⟩ := Option.bind_eq_some_iff.mp h
    have hverify := verify_of_sessionStart hstart
    cases handler with
    | none =>
        obtain ⟨-, rfl⟩ := Prod.mk.inj (Option.some.inj hrest)
        exact hverify
    | some handler =>
        obtain ⟨w, -, hw⟩ := Option.map_eq_some_iff.mp hrest
        obtain ⟨-, rfl⟩ := Prod.mk.inj hw
        simp only [handleRoute_calls _ hran, List.append_nil]
        exact hverify

/-- **A request revokes nothing**, where all resources are harmless. -/
theorem revokes_nothing_of_request {resources : UInt32 → Option (List Registered)}
    {served : Served} (hharmless : AllHarmless resources)
    (h : procHTTPClientContent K config r e resources v = some (v', served)) :
    ∀ op ∈ served.validatorCalls, revocation op = none := by
  cases hran : served.ran with
  | none => exact verify_of_not_ran h hran
  | some x =>
      obtain ⟨hcalled, u, calls, handler, hstart, -, -, hcalls⟩ := procHTTPClientContent_ran h hran
      obtain ⟨entries, hentries, hentry⟩ := hcalled.registered
      have hx := hharmless _ _ hentries x.entry (entry_is hentry).1
      intro op hop
      rw [hcalls] at hop
      rcases List.mem_append.mp hop with hop | hop
      · exact verify_of_sessionStart hstart op hop
      · rcases hx with hboth | hnothing
        · exact absurd hboth (not_asksForBoth_of_ran h hran)
        · exact hnothing _ _ op hop

/-- The engine has harmless resources only, and these revocations. -/
structure Kept (revocations : List (Bytes × ℤ)) (g : Engine) : Prop where
  harmless : AllHarmless g.resources
  revoked : Revoked revocations g.validator

theorem kept_new (algorithm : Algorithm) (enabled : Bool) :
    Kept [] (Engine.new K algorithm enabled) where
  harmless := by
    apply AllHarmless.update
    · intro apiVersion calls hcalls
      cases hcalls
    · intro x hx
      rw [List.mem_singleton.mp hx]
      exact Or.inl ⟨rfl, rfl⟩
  revoked := ⟨rfl, fun s hs => absurd hs (Finset.notMem_empty s)⟩

/-- **Step lemma.** -/
theorem Kept.step {revocations : List (Bytes × ℤ)} {g g' : Engine} {op : EngineOp}
    {served : Option Served} (h : Kept revocations g) (hop : RegistersHarmless op)
    (hstep : g.step K config op = some (g', served)) :
    Kept ((ownRevocation op).toList ++ revocations) g' := by
  have hreach := Engine.step_validator hstep
  cases op with
  | request r e =>
      obtain ⟨⟨u, y⟩, hproc, hy⟩ := Option.map_eq_some_iff.mp hstep
      obtain ⟨rfl, rfl⟩ := Prod.mk.inj hy
      exact ⟨h.harmless, h.revoked.reach (revokes_nothing_of_request h.harmless hproc) hreach⟩
  | newVersion apiVersion =>
      obtain ⟨rfl, -⟩ := Prod.mk.inj (Option.some.inj hstep)
      refine ⟨h.harmless.update apiVersion ?_, h.revoked⟩
      exact fun x hx => absurd hx List.not_mem_nil
  | addResource apiVersion x =>
      obtain ⟨calls, hcalls, hy⟩ := Option.map_eq_some_iff.mp hstep
      obtain ⟨rfl, -⟩ := Prod.mk.inj hy
      refine ⟨h.harmless.update apiVersion fun y hy => ?_, h.revoked⟩
      rcases List.mem_append.mp hy with hy | hy
      · exact h.harmless apiVersion calls hcalls y hy
      · rw [List.mem_singleton.mp hy]
        exact hop
  | validator op =>
      obtain ⟨⟨u, verdict⟩, hu, hy⟩ := Option.map_eq_some_iff.mp hstep
      obtain ⟨rfl, -⟩ := Prod.mk.inj hy
      exact ⟨h.harmless, h.revoked.step hu⟩

/-- **Run lemma.** -/
theorem Kept.reach {revocations : List (Bytes × ℤ)} {g g' : Engine} {ops : List EngineOp}
    (h : Kept revocations g) (hops : ∀ op ∈ ops, RegistersHarmless op)
    (hrun : Run.reach (Engine.step K config) g ops = some g') :
    Kept ((ops.filterMap ownRevocation).reverse ++ revocations) g' := by
  induction ops generalizing g revocations with
  | nil =>
      obtain rfl := Option.some.inj hrun
      exact h
  | cons op ops ih =>
      obtain ⟨⟨u, served⟩, hstep, hrest⟩ := Option.bind_eq_some_iff.mp hrun
      have hu := h.step (hops op List.mem_cons_self) hstep
      have hlater := ih hu (fun op' hop' => hops op' (List.mem_cons_of_mem op hop')) hrest
      cases hown : ownRevocation op with
      | none =>
          rw [hown] at hlater
          rw [List.filterMap_cons_none hown]
          exact hlater
      | some own =>
          rw [hown] at hlater
          rw [List.filterMap_cons_some hown, List.reverse_cons, List.append_assoc]
          exact hlater

/-- **The resource `revokeJWT` revokes nothing.**  It asks for a token in the header and for one in
the cookie, and `sessionStart` looks at one of them.  So in every run, if the methods that the
application registers revoke nothing either or are out of reach as well, the revocations are those
that the application itself has made. -/
theorem revokeJWT_revokes_nothing (K : Libraries) (config : RestParameters Regex)
    (algorithm : Algorithm) (enabled : Bool) (ops : List EngineOp)
    (hops : ∀ op ∈ ops, RegistersHarmless op) {g : Engine}
    (hrun : Run.reach (Engine.step K config) (Engine.new K algorithm enabled) ops = some g) :
    Revoked (ops.filterMap ownRevocation).reverse g.validator := by
  have hkept := (kept_new algorithm enabled).reach hops hrun
  rw [List.append_nil] at hkept
  exact hkept.revoked

end OutOfReach

/-- A request for `revokeJWT`, after a revocation by the application. -/
def sampleRevocation : List EngineOp :=
  [.validator (.setSharedSecret (ascii "secret")), .validator (.addToRevocationList [1] 100),
    .request (sampleRequest "POST" "/api/v0/revokeJWT") sampleCircumstances]

theorem revokeJWT_revokes_nothing_sample :
    ∃ g, Run.reach (Engine.step sample sampleRest) (Engine.new sample .HS256 true)
      sampleRevocation = some g ∧ Revoked [([1], 100)] g.validator := by
  have hruns : (Run.reach (Engine.step sample sampleRest) (Engine.new sample .HS256 true)
      sampleRevocation).isSome := by
    rw [sampleRevocation, sampleRequest, sampleToken, sample]
    repeat rw [ascii_ofList]
    decide +kernel
  obtain ⟨g, hrun⟩ := Option.isSome_iff_exists.mp hruns
  exact ⟨g, hrun, revokeJWT_revokes_nothing sample sampleRest .HS256 true sampleRevocation
    (by simp [sampleRevocation, RegistersHarmless]) hrun⟩

end RESTful

end Mantids
