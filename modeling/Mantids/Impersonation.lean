/-
# The login policy for impersonation

A token with an `impersonator` claim lets a user with a session become somebody else.  The
configuration says whether this may happen at all (`allowImpersonation`), and whether it may cross
domains (`allowImpersonationBetweenDifferentDomains`).

* `ImpersonationPermitted` — the policy;
* `ObeysPolicy` — a login that is not permitted ends with an error and makes no session;
* `obeysPolicy_iff` — when `handleAuthLoginFunction` obeys.
-/
import Mantids.RequestFrame

namespace Mantids

/-- The codes of client and server errors. -/
def StatusCode.isError : StatusCode → Bool
  | S_100_CONTINUE | S_101_SWITCHING_PROTOCOLS => false
  | S_200_OK | S_201_CREATED | S_202_ACCEPTED | S_203_NON_AUTHORITATIVE_INFORMATION
  | S_204_NO_CONTENT | S_205_RESET_CONTENT | S_206_PARTIAL_CONTENT => false
  | S_300_MULTIPLE_CHOICES | S_301_MOVED_PERMANENTLY | S_302_FOUND | S_303_SEE_OTHER
  | S_304_NOT_MODIFIED | S_307_TEMPORARY_REDIRECT | S_308_PERMANENT_REDIRECT => false
  | S_999_NOT_SET => false
  | _ => true

namespace ClientHandler

variable {Regex : Type*} (config : WebParameters Regex) (r : Request) (e : Surroundings)
  (h : ClientHandler) (token : Token)

/-! ## The policy -/

/-- Impersonation is allowed, the request comes in a session of the impersonator, and either the
domains are the same or it may cross domains. -/
def ImpersonationPermitted (current : Option WebSession) : Prop :=
  config.allowImpersonation = true ∧
    ∃ w, current = some w ∧ w.authSession.user = token.getImpersonator ∧
      (token.getDomain = w.authSession.domain ∨
        config.allowImpersonationBetweenDifferentDomains = true)

/-- A login that the policy does not permit ends with an error and leaves the sessions alone. -/
def ObeysPolicy : Prop :=
  ¬ ImpersonationPermitted config token h.currentWebSession →
    ∃ code, (handleAuthLoginFunction config r e h).1 = some code ∧ code.isError = true ∧
      (handleAuthLoginFunction config r e h).2.sessionsManager.sessions = h.sessionsManager.sessions

/-- The login stops at one of the checks that work: the origin, the first flag, the impersonator's
name or, where it decides nothing, the domain. -/
def StoppedOrPermitted : Prop :=
  r.origin ∉ config.permittedLoginOrigins ∨ config.allowImpersonation = false ∨
    ∃ w, h.currentWebSession = some w ∧
      (w.authSession.user ≠ token.getImpersonator ∨ token.getDomain = w.authSession.domain ∨
        config.allowImpersonationBetweenDifferentDomains = true)

/-! ## What the checks do -/

variable {config r e h token}

theorem refuseLogin_eq_none_iff (himpersonator : token.hasClaim "impersonator" = true)
    (current : Option WebSession) :
    refuseLogin config token current = none ↔
      config.allowImpersonation = true ∧ ∀ w, current = some w →
        w.authSession.user = token.getImpersonator ∧
          (token.getDomain = w.authSession.domain ∨
            config.allowImpersonationBetweenDifferentDomains = false) := by
  unfold refuseLogin
  rw [himpersonator]
  by_cases hallow : config.allowImpersonation = true
  · cases current with
    | none => simp [hallow]
    | some w =>
      by_cases huser : w.authSession.user = token.getImpersonator
      · by_cases hdomain : token.getDomain = w.authSession.domain
        · simp [hallow, huser, hdomain]
        · simp [hallow, huser, hdomain]
      · simp [hallow, huser]
  · simp [hallow]

/-- Every refusal is an error. -/
theorem isError_of_refuseLogin {current : Option WebSession} {code : StatusCode}
    (hrefuse : refuseLogin config token current = some code) : code.isError = true := by
  unfold refuseLogin at hrefuse
  dsimp only at hrefuse
  cases current with
  | none =>
    split_ifs at hrefuse
    cases hrefuse
    rfl
  | some w =>
    dsimp only at hrefuse
    split_ifs at hrefuse
    all_goals
      cases hrefuse
      rfl

/-- A login that is not refused goes on to make a session. -/
theorem handleAuthLoginFunction_of_passed (htoken : loginToken config r e = some (.accepted token))
    (horigin : r.origin ∈ config.permittedLoginOrigins)
    (hpassed : refuseLogin config token h.currentWebSession = none) :
    handleAuthLoginFunction config r e h = createLoginSession r e h token := by
  unfold handleAuthLoginFunction
  rw [if_neg (not_not.mpr horigin), htoken]
  dsimp only
  rw [hpassed]

theorem handleAuthLoginFunction_of_refused (htoken : loginToken config r e = some (.accepted token))
    (hstop : r.origin ∉ config.permittedLoginOrigins ∨
      refuseLogin config token h.currentWebSession ≠ none) :
    ∃ code, handleAuthLoginFunction config r e h = (some code, h) ∧ code.isError = true := by
  unfold handleAuthLoginFunction
  by_cases horigin : r.origin ∉ config.permittedLoginOrigins
  · rw [if_pos horigin]
    exact ⟨_, rfl, rfl⟩
  · rw [if_neg horigin, htoken]
    dsimp only
    cases hrefuse : refuseLogin config token h.currentWebSession with
    | none => exact absurd hrefuse (hstop.resolve_left horigin)
    | some code => exact ⟨code, rfl, isError_of_refuseLogin hrefuse⟩

/-- The manager has no room for a session of the user, or the id that was drawn is in use. -/
def NoSessionMade (m : WebSessionsManager) (random : Option (String × String)) (user : String) :
    Prop :=
  random ≠ none ∧ m.creates random user = false

/-- **The policy of impersonation logins.**  With a verified token that names an impersonator, the
login obeys the policy exactly if it stops at a check that works, the policy permits it, or the
manager makes no session. -/
theorem obeysPolicy_iff (config : WebParameters Regex) (r : Request) (e : Surroundings)
    (h : ClientHandler) (token : Token)
    (htoken : loginToken config r e = some (.accepted token))
    (himpersonator : token.hasClaim "impersonator" = true) :
    ObeysPolicy config r e h token ↔
      StoppedOrPermitted config r h token ∨
        NoSessionMade h.sessionsManager e.random token.getSubject := by
  by_cases hstop : r.origin ∉ config.permittedLoginOrigins ∨
      refuseLogin config token h.currentWebSession ≠ none
  · -- The login is refused, and one of the checks was the reason.
    obtain ⟨code, hres, herror⟩ := handleAuthLoginFunction_of_refused htoken hstop
    refine iff_of_true (fun _ => ⟨code, by rw [hres], herror, by rw [hres]⟩) (.inl ?_)
    by_contra hno
    unfold StoppedOrPermitted at hno
    push Not at hno
    obtain ⟨horigin, hallow, hall⟩ := hno
    refine hstop.elim (fun hout => hout horigin) fun hrefuse => hrefuse ?_
    rw [refuseLogin_eq_none_iff himpersonator]
    refine ⟨by simpa using hallow, fun w hw => ?_⟩
    obtain ⟨huser, hdomain, hflag⟩ := hall w hw
    exact ⟨huser, .inr (by simpa using hflag)⟩
  · push Not at hstop
    obtain ⟨horigin, hpassed⟩ := hstop
    have hlogin := handleAuthLoginFunction_of_passed htoken horigin hpassed
    obtain ⟨hallow, hall⟩ := (refuseLogin_eq_none_iff himpersonator _).mp hpassed
    -- What passed the checks is permitted if there is a session and the domains agree.
    have hsame : StoppedOrPermitted config r h token ↔
        ImpersonationPermitted config token h.currentWebSession := by
      constructor
      · rintro (hout | hoff | ⟨w, hw, hcond⟩)
        · exact absurd horigin hout
        · rw [hallow] at hoff
          cases hoff
        · obtain ⟨huser, -⟩ := hall w hw
          exact ⟨hallow, w, hw, huser, hcond.resolve_left (not_not.mpr huser)⟩
      · rintro ⟨-, w, hw, -, hdomain⟩
        exact .inr (.inr ⟨w, hw, .inr hdomain⟩)
    rw [hsame]
    by_cases hpermitted : ImpersonationPermitted config token h.currentWebSession
    · exact iff_of_true (fun hno => absurd hpermitted hno) (.inl hpermitted)
    · have hobeys : ObeysPolicy config r e h token ↔
          ∃ code, (createLoginSession r e h token).1 = some code ∧ code.isError = true ∧
            (createLoginSession r e h token).2.sessionsManager.sessions
              = h.sessionsManager.sessions := by
        unfold ObeysPolicy
        rw [hlogin]
        exact ⟨fun hp => hp hpermitted, fun hp _ => hp⟩
      rw [hobeys]
      obtain ⟨hrandom, hres⟩ | ⟨hcreates, id, w, h', -, -, hres, -⟩ |
        ⟨hcreates, h', hres, -, -, -, hsess, -⟩ :=
          createLoginSession_cases (r := r) (e := e) h token
      · rw [hres]
        refine iff_of_false ?_ ?_
        · rintro ⟨code, hcode, -⟩
          cases hcode
        · rintro (hp | ⟨hne, -⟩)
          · exact hpermitted hp
          · exact hne hrandom
      · rw [hres]
        refine iff_of_false ?_ ?_
        · rintro ⟨code, hcode, herror, -⟩
          cases hcode
          cases herror
        · rintro (hp | ⟨-, hno⟩)
          · exact hpermitted hp
          · rw [hcreates] at hno
            cases hno
      · rw [hres]
        refine iff_of_true ⟨_, rfl, rfl, hsess⟩ (.inr ⟨?_, hcreates⟩)
        intro hrandom
        simp [createLoginSession, WebSessionsManager.createSession, hrandom] at hres

/-! ## A server that allows impersonation -/

/-- Impersonation is allowed, within a domain. -/
def sampleImpersonation : WebParameters String := { sampleWeb with allowImpersonation := true }

/-- The token that makes alice act as bob of a domain. -/
def impersonationToken (domain : String) : Token :=
  { claims :=
      [("sub", .string "bob"), ("domain", .string domain), ("impersonator", .string "alice")] }

def impersonationSurroundings (domain : String) : Surroundings :=
  { sampleSurroundings with verify := fun _ => .accepted (impersonationToken domain) }

/-- The session of alice, in the domain `home`. -/
def aliceSession : WebSession where
  authSession :=
    Session.ofToken { claims := [("sub", .string "alice"), ("domain", .string "home")] } 0
  networkClientInfo := []

/-- The handler of a request, with the session that is open. -/
def sampleHandler (current : Option WebSession) : ClientHandler :=
  { sessionsManager := {}, currentWebSession := current,
    authSession := current.map (·.authSession) }

theorem obeysPolicy_in_the_domain :
    ObeysPolicy sampleImpersonation sampleLogin (impersonationSurroundings "home")
      (sampleHandler (some aliceSession)) (impersonationToken "home") :=
  (obeysPolicy_iff sampleImpersonation sampleLogin (impersonationSurroundings "home")
    (sampleHandler (some aliceSession)) (impersonationToken "home") rfl rfl).mpr
    (.inl (.inr (.inr ⟨aliceSession, rfl, by decide⟩)))

/-- Without a session, and from the session of another domain, the login makes a session that the
policy does not permit. -/
theorem impersonation_not_permitted :
    ¬ ObeysPolicy sampleImpersonation sampleLogin (impersonationSurroundings "other")
        (sampleHandler none) (impersonationToken "other") ∧
      ¬ ObeysPolicy sampleImpersonation sampleLogin (impersonationSurroundings "other")
        (sampleHandler (some aliceSession)) (impersonationToken "other") := by
  constructor
  · intro hobeys
    obtain ⟨code, hcode, herror, -⟩ := hobeys (by rintro ⟨-, w, hw, -⟩; cases hw)
    have hmade : (handleAuthLoginFunction sampleImpersonation sampleLogin
        (impersonationSurroundings "other") (sampleHandler none)).1 = some .S_200_OK := rfl
    rw [hmade] at hcode
    cases hcode
    cases herror
  · intro hobeys
    have hno : ¬ ImpersonationPermitted sampleImpersonation (impersonationToken "other")
        (some aliceSession) := by
      rintro ⟨-, w, hw, -, hdomain⟩
      cases hw
      revert hdomain
      decide
    obtain ⟨code, hcode, herror, -⟩ := hobeys hno
    have hmade : (handleAuthLoginFunction sampleImpersonation sampleLogin
        (impersonationSurroundings "other") (sampleHandler (some aliceSession))).1
          = some .S_200_OK := rfl
    rw [hmade] at hcode
    cases hcode
    cases herror

end ClientHandler

end Mantids
