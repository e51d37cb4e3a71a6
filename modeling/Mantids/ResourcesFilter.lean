/-
# Filters over the resources of a web server

`ResourcesFilter` (`Server_WebCore/resourcesfilter.cpp`) decides what happens to a request
for a file: a list of filters, each with requirements on the session, patterns for the path
and an action.  The first filter whose requirements are met and one of whose patterns
matches decides; if there is none, the request is accepted.

* `evaluateURI` — the two loops of the source;
* `evaluateURI_eq` — the decision in one expression;
* `evaluateURI_accept_of_redirect` — a verdict never both refuses and redirects.

The patterns are `boost::regex` objects; matching is a parameter.
-/
import Mantids.Response

namespace Mantids

namespace ResourcesFilter

inductive FilterAction where
  | RFILTER_ACCEPT
  | RFILTER_DENY
  | RFILTER_REDIRECT
deriving DecidableEq

/-- `ResourcesFilter::Filter`, over a type of compiled patterns. -/
structure Filter (Regex : Type*) where
  regexPatterns : List Regex := []
  redirectLocation : String := ""
  requiredPermissions : List String := []
  rejectedPermissions : List String := []
  requiredRoles : List String := []
  rejectedRoles : List String := []
  requireSession : Bool := false
  disallowSession : Bool := false
  action : FilterAction := .RFILTER_ACCEPT

/-- `ResourcesFilter::FilterEvaluationResult`. -/
structure FilterEvaluationResult where
  accept : Bool := true
  redirectLocation : String := ""
deriving DecidableEq

variable {Regex : Type*} (regexMatch : Regex → String → Bool)

/-- The four loops over required and rejected names: each ends at the first name that
fails, and none starts after a failure. -/
def checkNames (test : String → Bool) : List String → Bool → Bool
  | [], filterMatchesRequirements => filterMatchesRequirements
  | name :: names, filterMatchesRequirements =>
    if !filterMatchesRequirements then false
    else checkNames test names (test name)

/-- The first part of the loop body: whether the session meets the requirements. -/
def matchesRequirements (filter : Filter Regex) (permissions roles : Finset String)
    (isSessionActive : Bool) : Bool :=
  let filterMatchesRequirements := checkNames (· ∈ permissions) filter.requiredPermissions true
  let filterMatchesRequirements :=
    checkNames (· ∉ permissions) filter.rejectedPermissions filterMatchesRequirements
  let filterMatchesRequirements :=
    checkNames (· ∈ roles) filter.requiredRoles filterMatchesRequirements
  let filterMatchesRequirements :=
    checkNames (· ∉ roles) filter.rejectedRoles filterMatchesRequirements
  let filterMatchesRequirements :=
    if filter.requireSession && !isSessionActive then false else filterMatchesRequirements
  if filter.disallowSession && isSessionActive then false else filterMatchesRequirements

/-- The `switch` over the action of the filter that matched. -/
def FilterEvaluationResult.apply (evaluationResult : FilterEvaluationResult)
    (filter : Filter Regex) : FilterEvaluationResult :=
  match filter.action with
  | .RFILTER_ACCEPT => { evaluationResult with accept := true }
  | .RFILTER_REDIRECT =>
    { evaluationResult with accept := true, redirectLocation := filter.redirectLocation }
  | .RFILTER_DENY => { evaluationResult with accept := false }

/-- The loop over the patterns of one filter. -/
def evaluatePatterns (uri : String) (filter : Filter Regex) : List Regex →
    Option FilterEvaluationResult
  | [] => none
  | uriRegexPattern :: patterns =>
    if regexMatch uriRegexPattern (cStr uri) then
      some (FilterEvaluationResult.apply {} filter)
    else evaluatePatterns uri filter patterns

/-- `evaluateURI` over the list `m_filters`. -/
def evaluateURI (uri : String) (permissions roles : Finset String) (isSessionActive : Bool) :
    List (Filter Regex) → FilterEvaluationResult
  | [] => { accept := true }
  | filter :: filters =>
    if !matchesRequirements filter permissions roles isSessionActive then
      evaluateURI uri permissions roles isSessionActive filters
    else
      match evaluatePatterns regexMatch uri filter filter.regexPatterns with
      | some evaluationResult => evaluationResult
      | none => evaluateURI uri permissions roles isSessionActive filters

/-! ## Which filter decides -/

theorem checkNames_eq (test : String → Bool) (names : List String) (b : Bool) :
    checkNames test names b = (b && names.all test) := by
  induction names generalizing b with
  | nil => simp [checkNames]
  | cons name names ih =>
      cases b with
      | false => simp [checkNames]
      | true => simp [checkNames, ih]

/-- A filter applies to a session that has every required name, no rejected one, and is
there or not as the filter asks. -/
theorem matchesRequirements_iff (filter : Filter Regex) (permissions roles : Finset String)
    (isSessionActive : Bool) :
    matchesRequirements filter permissions roles isSessionActive = true ↔
      (∀ p ∈ filter.requiredPermissions, p ∈ permissions) ∧
      (∀ p ∈ filter.rejectedPermissions, p ∉ permissions) ∧
      (∀ r ∈ filter.requiredRoles, r ∈ roles) ∧
      (∀ r ∈ filter.rejectedRoles, r ∉ roles) ∧
      (filter.requireSession = true → isSessionActive = true) ∧
      (filter.disallowSession = true → isSessionActive = false) := by
  unfold matchesRequirements
  simp only [checkNames_eq, Bool.true_and]
  cases isSessionActive <;> cases filter.requireSession <;> cases filter.disallowSession <;>
    simp [and_assoc]

theorem evaluatePatterns_eq (uri : String) (filter : Filter Regex) (patterns : List Regex) :
    evaluatePatterns regexMatch uri filter patterns
      = if patterns.any (fun p => regexMatch p (cStr uri))
        then some (FilterEvaluationResult.apply {} filter) else none := by
  induction patterns with
  | nil => rfl
  | cons p patterns ih =>
      cases hp : regexMatch p (cStr uri) with
      | true => simp [evaluatePatterns, hp]
      | false => simp [evaluatePatterns, hp, ih]

/-- A filter that decides a request. -/
def decides (uri : String) (permissions roles : Finset String) (isSessionActive : Bool)
    (filter : Filter Regex) : Bool :=
  matchesRequirements filter permissions roles isSessionActive &&
    filter.regexPatterns.any (fun p => regexMatch p (cStr uri))

/-- The first filter that decides gives the verdict, and without one the request is
accepted. -/
theorem evaluateURI_eq (uri : String) (permissions roles : Finset String)
    (isSessionActive : Bool) (filters : List (Filter Regex)) :
    evaluateURI regexMatch uri permissions roles isSessionActive filters
      = match filters.find? (decides regexMatch uri permissions roles isSessionActive) with
        | some filter => FilterEvaluationResult.apply {} filter
        | none => { accept := true } := by
  induction filters with
  | nil => rfl
  | cons filter filters ih =>
      rw [evaluateURI, evaluatePatterns_eq]
      cases hreq : matchesRequirements filter permissions roles isSessionActive with
      | false => simp [decides, hreq, ih]
      | true =>
          cases hpat : filter.regexPatterns.any (fun p => regexMatch p (cStr uri)) with
          | false =>
              rw [List.find?_cons_of_neg (by simp [decides, hreq, hpat])]
              simpa using ih
          | true =>
              rw [List.find?_cons_of_pos (by simp [decides, hreq, hpat])]
              simp

/-- A verdict that redirects accepts. -/
theorem evaluateURI_accept_of_redirect (uri : String) (permissions roles : Finset String)
    (isSessionActive : Bool) (filters : List (Filter Regex))
    (h : (evaluateURI regexMatch uri permissions roles isSessionActive filters).redirectLocation
      ≠ "") :
    (evaluateURI regexMatch uri permissions roles isSessionActive filters).accept = true := by
  rw [evaluateURI_eq] at h ⊢
  cases hfind : filters.find? (decides regexMatch uri permissions roles isSessionActive) with
  | none => rfl
  | some filter =>
      simp only [hfind, FilterEvaluationResult.apply] at h ⊢
      cases haction : filter.action with
      | RFILTER_ACCEPT => rfl
      | RFILTER_REDIRECT => rfl
      | RFILTER_DENY =>
          rw [haction] at h
          exact absurd rfl h

end ResourcesFilter

end Mantids
