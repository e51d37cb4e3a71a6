/-
# The version of an API call

The URI of an API call is `base/vD/resource`.  `procHTTPClientContent` reads the digits `D` with
`std::stoul` into a `size_t`, and hands them to `handleAPIRequest` as a `uint32_t`; both servers
then look for the methods handler of that version.

* `handleByVersion` — the look-up, which the `handleAPIRequest` of the monolith server and that of
  the RESTful server have in common;
* `registeredFor` — the handler that is registered for a number;
* `RoutedExactly` — no exception, and the handler that is consulted is the one for the number `D`;
* `VersionFits` — the condition on the number, the origin and the table;
* `versions_routed_exactly_iff` — for both servers, the one holds exactly if the other does.
-/
import Mantids.Routing
import Mantids.RestfulMethods
import Mantids.MethodsHandler

namespace Mantids

/-! ## The two servers -/

/-- What `handleAPIRequest` did: the methods handler that it consulted, and its answer. -/
structure Handled (H A : Type*) where
  consulted : Option H
  answer : A

/-- The beginning of both `handleAPIRequest`: the handler of the version is called, if there is
one. -/
def handleByVersion {H A : Type*} (methodsHandlers : Finmap (fun _ : UInt32 => H))
    (apiVersion : UInt32) (notFound : A) (call : H → A) : Handled H A :=
  match methodsHandlers.lookup apiVersion with
  | none => ⟨none, notFound⟩
  | some methodsHandler => ⟨some methodsHandler, call methodsHandler⟩

theorem handleByVersion_consulted {H A : Type*} (methodsHandlers : Finmap (fun _ : UInt32 => H))
    (apiVersion : UInt32) (notFound : A) (call : H → A) :
    (handleByVersion methodsHandlers apiVersion notFound call).consulted =
      methodsHandlers.lookup apiVersion := by
  unfold handleByVersion
  rcases methodsHandlers.lookup apiVersion with _ | methodsHandler <;> rfl

theorem handleByVersion_answer {H A : Type*} {methodsHandlers : Finmap (fun _ : UInt32 => H)}
    {apiVersion : UInt32} (h : methodsHandlers.lookup apiVersion = none) (notFound : A)
    (call : H → A) :
    (handleByVersion methodsHandlers apiVersion notFound call).answer = notFound := by
  simp only [handleByVersion, h]

namespace Monolith

/-- What an API call leaves in its `APIReturn`. -/
inductive APIAnswer where
  | error (httpResponseCode : StatusCode) (error message : String) (reasons : Json.Members)
  | response (payloadOut : Json)
  /-- A null session was used. -/
  | nullDereference

/-- The status of the response, if there is one. -/
def APIAnswer.httpResponseCode : APIAnswer → Option StatusCode
  | .error httpResponseCode _ _ _ => some httpResponseCode
  | .response _ => some .S_200_OK
  | .nullDereference => none

/-- What a call comes with, beside its version and method. -/
structure Call where
  /-- `m_currentWebSession` is set. -/
  hasWebSession : Bool := false
  /-- `m_currentSessionInfo.authSession`. -/
  authSession : Option Session := none
  postParameters : Json := .null
  now : ℤ := 0

instance : Nonempty Call := ⟨{}⟩

/-- The call of a method, once its handler is found. -/
def callMethod (methodsHandler : MethodsHandler) (methodName : String) (c : Call) : APIAnswer :=
  if methodsHandler.doesMethodRequireActiveSession methodName && !c.hasWebSession then
    .error .S_404_NOT_FOUND "invalid_api_handling" "Method Not Found" []
  else
    match methodsHandler.validateMethodRequirements c.authSession methodName [] with
    | (.ok, _) =>
      match (methodsHandler.invoke c.authSession methodName c.postParameters c.now).1 with
      | .success payloadOut => .response payloadOut
      | .methodNotFound =>
        .error .S_404_NOT_FOUND "invalid_api_handling" "Method not found." []
      | .nullDereference => .nullDereference
    | (.notAuthorized, reasons) =>
      .error .S_401_UNAUTHORIZED "invalid_api_handling" "Method unauthorized." reasons
    | (.methodNotFound, _) =>
      .error .S_404_NOT_FOUND "invalid_api_handling" "Method not found." []

/-- `handleAPIRequest` of the monolith server. -/
def handleAPIRequest (methodsHandlerByAPIVersion : Finmap (fun _ : UInt32 => MethodsHandler))
    (apiVersion : UInt32) (methodName : String) (c : Call) : Handled MethodsHandler APIAnswer :=
  handleByVersion methodsHandlerByAPIVersion apiVersion
    (.error .S_404_NOT_FOUND "invalid_api_handling" "Method Not Found" [])
    (fun methodsHandler => callMethod methodsHandler methodName c)

end Monolith

namespace RESTful

/-- What a call comes with, beside its version and resource. -/
structure Call where
  methodMode : String := "GET"
  inputParameters : RequestParameters := {}
  currentPermissions : Finset String := ∅
  securityParameters : SecurityParameters := {}
  apiReturn : APIReturn := {}

instance : Nonempty Call := ⟨{}⟩

/-- `handleAPIRequest` of the RESTful server; there is no response after a null pointer was used. -/
def handleAPIRequest (methodsHandler : Finmap (fun _ : UInt32 => MethodsHandler))
    (apiVersion : UInt32) (methodName : String) (c : Call) :
    Handled MethodsHandler (Option APIReturn) :=
  handleByVersion methodsHandler apiVersion
    (some (c.apiReturn.setError .S_404_NOT_FOUND "invalid_api_request" "Resource Not Found"))
    (fun h =>
      match h.invokeResourceByName c.methodMode methodName c.inputParameters c.currentPermissions
        c.securityParameters (some c.apiReturn) with
      | .returned _ apiReturn _ => apiReturn
      | .nullDereference => none)

end RESTful

/-! ## Which handler a number has -/

/-- The handler that is registered for a number: versions are registered with 32 bits. -/
def registeredFor {H : Type*} (methodsHandlers : Finmap (fun _ : UInt32 => H)) (version : ℕ) :
    Option H :=
  if version < 2 ^ 32 then methodsHandlers.lookup (UInt32.ofNat version) else none

/-- The 32 bits of a number lead to its handler exactly if they are the number, or lead nowhere. -/
theorem lookup_eq_registeredFor_iff {H : Type*} (methodsHandlers : Finmap (fun _ : UInt32 => H))
    (version : ℕ) :
    methodsHandlers.lookup (UInt32.ofNat version) = registeredFor methodsHandlers version ↔
      version < 2 ^ 32 ∨ methodsHandlers.lookup (UInt32.ofNat version) = none := by
  unfold registeredFor
  by_cases hlt : version < 2 ^ 32
  · rw [if_pos hlt]
    exact iff_of_true rfl (Or.inl hlt)
  · rw [if_neg hlt, or_iff_right hlt]

/-! ## How a URI is read -/

section Reading

variable {Regex : Type*} (config : WebParameters Regex) (r : Request)

/-- The base URL at which the loop ends. -/
def takenBase : Option String :=
  config.APIURLs.find? (fun baseApiUrl => startsWith r.uri (baseApiUrl ++ "/"))

/-- The digits and the resource that are read, if the request is an API call. -/
def readVersion : Option (List Char × String) :=
  (takenBase config r).bind
    (fun baseApiUrl => apiVersionResourcePattern (substr r.uri baseApiUrl.toList.length))

/-- A URI of the form `base/vD/resource`, with a resource without newline. -/
structure OfForm (uri base : String) (digits resource : List Char) : Prop where
  uri : uri.toList = base.toList ++ '/' :: 'v' :: (digits ++ '/' :: resource)
  digits : digits ≠ [] ∧ digits.all Char.isDigit = true
  resource : resource ≠ [] ∧ '\n' ∉ resource

variable {config r}

/-- An API call goes on unless its number or its origin is refused. -/
theorem route_of_readVersion {digits : List Char} {resource : String}
    (h : readVersion config r = some (digits, resource)) :
    route config r =
      if 2 ^ 64 ≤ decimalValue digits then .apiVersionOutOfRange
      else if !isOriginAllowed config r (pathMethodName resource) then .apiDisallowedOrigin
      else .api (decimalValue digits) resource := by
  unfold readVersion takenBase at h
  unfold route
  rcases hbase : config.APIURLs.find? (fun baseApiUrl => startsWith r.uri (baseApiUrl ++ "/")) with
    _ | baseApiUrl
  · rw [hbase] at h
    cases h
  · rw [hbase, Option.bind_some] at h
    simp only [h]

theorem routeResource_ne (config : WebParameters Regex) (r : Request) :
    routeResource config r ≠ .apiVersionOutOfRange ∧
      ∀ v resource, routeResource config r ≠ .api v resource := by
  unfold routeResource
  split
  · exact ⟨by simp, fun v resource => by simp⟩
  · exact ⟨by simp, fun v resource => by simp⟩

/-- What is not read as an API call takes another branch. -/
theorem route_of_not_read (h : readVersion config r = none) :
    route config r ≠ .apiVersionOutOfRange ∧ ∀ v resource, route config r ≠ .api v resource := by
  unfold readVersion takenBase at h
  unfold route
  rcases hbase : config.APIURLs.find? (fun baseApiUrl => startsWith r.uri (baseApiUrl ++ "/")) with
    _ | baseApiUrl
  · exact routeResource_ne config r
  · rw [hbase, Option.bind_some] at h
    simp only [h]
    split
    · exact ⟨by simp, fun v resource => by simp⟩
    · split
      · exact ⟨by simp, fun v resource => by simp⟩
      · exact routeResource_ne config r

/-- What `.` matches, in a text without newlines. -/
theorem all_dot_iff {resource : List Char} (hnewline : '\n' ∉ resource) :
    resource.all (fun c => c ≠ '\n' && c ≠ '\r') = true ↔ '\r' ∉ resource := by
  rw [List.all_eq_true]
  constructor
  · intro hall hmem
    simpa using hall _ hmem
  · intro hreturn c hc
    have hn : c ≠ '\n' := fun heq => hnewline (heq ▸ hc)
    have hr : c ≠ '\r' := fun heq => hreturn (heq ▸ hc)
    simp [hn, hr]

/-- The regular expression reads the digits of a URI of the form, unless the resource has a carriage
return in it, which `.` does not match. -/
theorem apiVersionResourcePattern_of_form {base : String} {digits resource : List Char}
    (h : OfForm r.uri base digits resource) :
    apiVersionResourcePattern (substr r.uri base.toList.length) =
      if '\r' ∈ resource then none else some (digits, String.ofList resource) := by
  have hslash : ('/' : Char).isDigit = false := by decide
  have htake : (digits ++ '/' :: resource).takeWhile Char.isDigit = digits := by
    rw [List.takeWhile_append_of_pos (by simpa using h.digits.2), List.takeWhile_cons, hslash]
    simp
  have hdrop : (digits ++ '/' :: resource).dropWhile Char.isDigit = '/' :: resource := by
    rw [List.dropWhile_append_of_pos (by simpa using h.digits.2), List.dropWhile_cons, hslash]
    simp
  have htext : (substr r.uri base.toList.length).toList =
      '/' :: 'v' :: (digits ++ '/' :: resource) := by
    rw [substr, String.toList_ofList, h.uri, List.drop_left]
  unfold apiVersionResourcePattern
  rw [htext]
  simp only [htake, hdrop]
  have hall := all_dot_iff h.resource.2
  by_cases hreturn : '\r' ∈ resource
  · rw [if_pos hreturn, if_neg]
    rintro ⟨-, -, hmatch⟩
    exact hall.mp hmatch hreturn
  · rw [if_neg hreturn, if_pos ⟨h.digits.1, h.resource.1, hall.mpr hreturn⟩]

end Reading

/-! ## Exact routing -/

section Routing

variable {Regex : Type*} (config : WebParameters Regex) (r : Request)

/-- An API call raises no exception, consults the handler of a number, and is answered 404 if there
is none. -/
structure RoutedExactly {H A C : Type*} (methodsHandlers : Finmap (fun _ : UInt32 => H))
    (handleAPIRequest : UInt32 → String → C → Handled H A) (code : A → Option StatusCode)
    (version : ℕ) : Prop where
  returns : route config r ≠ .apiVersionOutOfRange
  consulted : ∀ v resource, route config r = .api v resource → ∀ c,
    (handleAPIRequest (UInt32.ofNat v) (pathMethodName resource) c).consulted =
      registeredFor methodsHandlers version
  notFound : registeredFor methodsHandlers version = none →
    ∀ v resource, route config r = .api v resource → ∀ c,
      code (handleAPIRequest (UInt32.ofNat v) (pathMethodName resource) c).answer =
        some .S_404_NOT_FOUND

/-- What is read leads to the handler of a number. -/
def LeadsTo {H : Type*} (methodsHandlers : Finmap (fun _ : UInt32 => H)) (version : ℕ)
    (digits : List Char) (resource : String) : Prop :=
  decimalValue digits < 2 ^ 64 ∧
    (isOriginAllowed config r (pathMethodName resource) = true →
      methodsHandlers.lookup (UInt32.ofNat (decimalValue digits)) =
        registeredFor methodsHandlers version)

/-- The condition on a URI `base/vD/resource`.  The number has 32 bits; or it has 64, and its origin
is refused or its lower 32 bits lead nowhere.  If the loop takes another base URL, that the request
is under as well, what is read there has to lead to the handler of `D`. -/
structure VersionFits {H : Type*} (methodsHandlers : Finmap (fun _ : UInt32 => H)) (base : String)
    (digits resource : List Char) : Prop where
  taken : takenBase config r = some base →
    '\r' ∈ resource ∨ decimalValue digits < 2 ^ 32 ∨
      (decimalValue digits < 2 ^ 64 ∧
        (isOriginAllowed config r (pathMethodName (String.ofList resource)) = true →
          methodsHandlers.lookup (UInt32.ofNat (decimalValue digits)) = none))
  other : takenBase config r ≠ some base →
    ∀ digits' resource', readVersion config r = some (digits', resource') →
      LeadsTo config r methodsHandlers (decimalValue digits) digits' resource'

variable {config r}

section Server

variable {H A C : Type*} {methodsHandlers : Finmap (fun _ : UInt32 => H)}
  {handleAPIRequest : UInt32 → String → C → Handled H A} {code : A → Option StatusCode}

/-- What is no API call is routed exactly. -/
theorem routedExactly_of_not_read (hread : readVersion config r = none) (version : ℕ) :
    RoutedExactly config r methodsHandlers handleAPIRequest code version := by
  obtain ⟨hreturns, hapi⟩ := route_of_not_read hread
  exact ⟨hreturns, fun v resource hroute => absurd hroute (hapi v resource),
    fun _ v resource hroute => absurd hroute (hapi v resource)⟩

variable [Nonempty C]

/-- For an API call, exact routing is a matter of what was read. -/
theorem routedExactly_iff_leadsTo
    (hconsulted : ∀ v methodName c,
      (handleAPIRequest v methodName c).consulted = methodsHandlers.lookup v)
    (hnotFound : ∀ v methodName c, methodsHandlers.lookup v = none →
      code (handleAPIRequest v methodName c).answer = some .S_404_NOT_FOUND)
    {digits : List Char} {resource : String}
    (hread : readVersion config r = some (digits, resource))
    (version : ℕ) :
    RoutedExactly config r methodsHandlers handleAPIRequest code version ↔
      LeadsTo config r methodsHandlers version digits resource := by
  have hroute := route_of_readVersion hread
  constructor
  · intro h
    have hlt : decimalValue digits < 2 ^ 64 := by
      by_contra hge
      rw [if_pos (Nat.le_of_not_lt hge)] at hroute
      exact h.returns hroute
    refine ⟨hlt, fun hallowed => ?_⟩
    rw [if_neg (Nat.not_le.mpr hlt), hallowed, Bool.not_true, if_neg Bool.false_ne_true] at hroute
    obtain ⟨c⟩ := ‹Nonempty C›
    rw [← hconsulted (UInt32.ofNat (decimalValue digits)) (pathMethodName resource) c]
    exact h.consulted _ _ hroute c
  · rintro ⟨hlt, hlookup⟩
    rw [if_neg (Nat.not_le.mpr hlt)] at hroute
    rcases hallowed : isOriginAllowed config r (pathMethodName resource) with _ | _
    · -- the origin is refused, and nothing is consulted
      rw [hallowed, Bool.not_false, if_pos rfl] at hroute
      refine ⟨by simp [hroute], fun v res hapi => ?_, fun _ v res hapi => ?_⟩ <;>
      · rw [hroute] at hapi
        cases hapi
    · rw [hallowed, Bool.not_true, if_neg Bool.false_ne_true] at hroute
      have hfound := hlookup hallowed
      refine ⟨by simp [hroute], fun v res hapi c => ?_, fun hnone v res hapi c => ?_⟩
      · obtain ⟨rfl, rfl⟩ := Route.api.inj (hroute.symm.trans hapi)
        rw [hconsulted, hfound]
      · obtain ⟨rfl, rfl⟩ := Route.api.inj (hroute.symm.trans hapi)
        exact hnotFound _ _ c (hfound.trans hnone)

/-- Where the loop takes the base URL, the condition is the one on the number. -/
theorem versionFits_iff_of_taken {base : String} {digits resource : List Char}
    (htaken : takenBase config r = some base) :
    VersionFits config r methodsHandlers base digits resource ↔
      '\r' ∈ resource ∨ decimalValue digits < 2 ^ 32 ∨ (decimalValue digits < 2 ^ 64 ∧
        (isOriginAllowed config r (pathMethodName (String.ofList resource)) = true →
          methodsHandlers.lookup (UInt32.ofNat (decimalValue digits)) = none)) := by
  constructor
  · intro h
    exact h.taken htaken
  · intro h
    exact ⟨fun _ => h, fun hother => absurd htaken hother⟩

/-- Where it takes another one, the condition is the one on what is read there. -/
theorem versionFits_iff_of_other {base : String} {digits resource : List Char}
    (hother : takenBase config r ≠ some base) :
    VersionFits config r methodsHandlers base digits resource ↔
      ∀ digits' resource', readVersion config r = some (digits', resource') →
        LeadsTo config r methodsHandlers (decimalValue digits) digits' resource' := by
  constructor
  · intro h
    exact h.other hother
  · intro h
    exact ⟨fun htaken => absurd htaken hother, fun _ => h⟩

theorem routedExactly_iff
    (hconsulted : ∀ v methodName c,
      (handleAPIRequest v methodName c).consulted = methodsHandlers.lookup v)
    (hnotFound : ∀ v methodName c, methodsHandlers.lookup v = none →
      code (handleAPIRequest v methodName c).answer = some .S_404_NOT_FOUND)
    {base : String} {digits resource : List Char} (hform : OfForm r.uri base digits resource) :
    RoutedExactly config r methodsHandlers handleAPIRequest code (decimalValue digits) ↔
      VersionFits config r methodsHandlers base digits resource := by
  by_cases htaken : takenBase config r = some base
  · have hread : readVersion config r =
        if '\r' ∈ resource then none else some (digits, String.ofList resource) := by
      rw [readVersion, htaken, Option.bind_some, apiVersionResourcePattern_of_form hform]
    rw [versionFits_iff_of_taken htaken]
    by_cases hreturn : '\r' ∈ resource
    · -- the pattern does not match, and the request is no API call
      rw [if_pos hreturn] at hread
      exact iff_of_true (routedExactly_of_not_read hread _) (Or.inl hreturn)
    · -- what is read is what the URI says
      rw [if_neg hreturn] at hread
      rw [or_iff_right hreturn, routedExactly_iff_leadsTo hconsulted hnotFound hread, LeadsTo,
        lookup_eq_registeredFor_iff]
      by_cases hsmall : decimalValue digits < 2 ^ 32
      · exact iff_of_true ⟨by omega, fun _ => Or.inl hsmall⟩ (Or.inl hsmall)
      · rw [or_iff_right hsmall, or_iff_right hsmall]
  · rw [versionFits_iff_of_other htaken]
    rcases hread : readVersion config r with _ | ⟨digits', resource'⟩
    · exact iff_of_true (routedExactly_of_not_read hread _) (fun _ _ h => by cases h)
    · rw [routedExactly_iff_leadsTo hconsulted hnotFound hread]
      constructor
      · rintro h _ _ ⟨⟩
        exact h
      · intro h
        exact h digits' resource' rfl

end Server

/-- **API versions are routed exactly**, by the monolith server and by the RESTful one, if and only
if the version fits. -/
theorem versions_routed_exactly_iff {base : String} {digits resource : List Char}
    (hform : OfForm r.uri base digits resource)
    (methodsHandlerByAPIVersion : Finmap (fun _ : UInt32 => MethodsHandler))
    (methodsHandler : Finmap (fun _ : UInt32 => RESTful.MethodsHandler)) :
    (RoutedExactly config r methodsHandlerByAPIVersion
        (Monolith.handleAPIRequest methodsHandlerByAPIVersion) Monolith.APIAnswer.httpResponseCode
        (decimalValue digits) ↔
      VersionFits config r methodsHandlerByAPIVersion base digits resource) ∧
    (RoutedExactly config r methodsHandler (RESTful.handleAPIRequest methodsHandler)
        (Option.map RESTful.APIReturn.httpResponseCode) (decimalValue digits) ↔
      VersionFits config r methodsHandler base digits resource) := by
  refine ⟨routedExactly_iff ?_ ?_ hform, routedExactly_iff ?_ ?_ hform⟩
  · intro v methodName c
    exact handleByVersion_consulted _ _ _ _
  · intro v methodName c hnone
    rw [Monolith.handleAPIRequest, handleByVersion_answer hnone]
    rfl
  · intro v methodName c
    exact handleByVersion_consulted _ _ _ _
  · intro v methodName c hnone
    rw [RESTful.handleAPIRequest, handleByVersion_answer hnone]
    rfl

/-- A server with its API under `/api`. -/
def versionedWeb : WebParameters String where
  documentRootPath := ""
  regexMatch := (· == ·)

/-- Version 1, where there is one. -/
theorem versions_routed_exactly_iff_one :
    RoutedExactly versionedWeb { uri := "/api/v1/users" } (Finmap.singleton (1 : UInt32) {})
      (Monolith.handleAPIRequest (Finmap.singleton (1 : UInt32) {}))
      Monolith.APIAnswer.httpResponseCode 1 := by
  have hform : OfForm "/api/v1/users" "/api" ['1'] "users".toList :=
    ⟨by decide, by decide, by decide⟩
  have hfits : VersionFits versionedWeb { uri := "/api/v1/users" }
      (Finmap.singleton (1 : UInt32) ({} : MethodsHandler)) "/api" ['1'] "users".toList :=
    ⟨fun _ => Or.inr (Or.inl (by decide)), fun h => absurd (by decide) h⟩
  exact (versions_routed_exactly_iff hform (Finmap.singleton 1 {}) ∅).1.mpr hfits

/-- The handler of version 1 is consulted for version 4294967297, and 2^64 is an exception. -/
theorem version_truncated :
    ¬ RoutedExactly versionedWeb { uri := "/api/v4294967297/users" }
        (Finmap.singleton (1 : UInt32) {})
        (Monolith.handleAPIRequest (Finmap.singleton (1 : UInt32) {}))
        Monolith.APIAnswer.httpResponseCode 4294967297 ∧
      route versionedWeb { uri := "/api/v18446744073709551616/users" } = .apiVersionOutOfRange := by
  refine ⟨fun h => ?_, by decide +kernel⟩
  have hfound := h.consulted 4294967297 "users" (by decide +kernel) {}
  rw [Monolith.handleAPIRequest, handleByVersion_consulted] at hfound
  cases hfound

end Routing

end Mantids
