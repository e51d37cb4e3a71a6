/-
# What a request can do to the sessions

The functions of the client handler touch the sessions only through a few operations of the
manager.  This file says once what each of these does, and what follows for a request.

* `Kept` and `procHTTPClientContent_kept` — a property that every operation keeps is kept by
  a request, the destruction at its end being asked for separately;
* `admitted`, `presented`, `acceptedLogin`, `throws` — where a request goes, read off the
  request, the configuration and the sessions before it;
* `sessionStart_of_…`, `handleRoute_of_…` — the stages of a request in these terms.
-/
import Mantids.ClientHandler

namespace Mantids

/-! ## Operations of the manager -/

namespace WebSessionsManager

/-- More calls in the record. -/
def addCalls (m : WebSessionsManager) (calls : List (Call String)) : WebSessionsManager :=
  { m with sessions := { m.sessions with calls := m.sessions.calls ++ calls } }

@[simp] theorem addCalls_element (m : WebSessionsManager) (calls : List (Call String))
    (k : String) : (m.addCalls calls).sessions.element k = m.sessions.element k := rfl

@[simp] theorem addCalls_session? (m : WebSessionsManager) (calls : List (Call String))
    (k : String) : (m.addCalls calls).session? k = m.session? k := rfl

@[simp] theorem addCalls_calls (m : WebSessionsManager) (calls : List (Call String)) :
    (m.addCalls calls).sessions.calls = m.sessions.calls ++ calls := rfl

theorem openSession_of_none {m : WebSessionsManager} {id : String} (h : m.session? id = none)
    (now : ℤ) : m.openSession id now = (none, m) := by
  unfold openSession
  rw [SafeMap.openElement_of_none h]

theorem openSession_of_some {m : WebSessionsManager} {id : String} {w : WebSession}
    (h : m.session? id = some w) (now : ℤ) :
    ∃ maxAge, m.openSession id now
      = (some (w, maxAge), { m with sessions := (m.sessions.openElement id).2 }) := by
  unfold openSession
  rw [SafeMap.openElement_of_some h]
  exact ⟨_, rfl⟩

/-- One more reader of a session does not make its count overflow. -/
def hasRoom (m : WebSessionsManager) (id : String) : Bool := m.sessions.readers id + 1 ≠ 0

theorem ne_zero_of_hasRoom {m : WebSessionsManager} {id : String} (h : m.hasRoom id = true) :
    m.sessions.readers id + 1 ≠ 0 := of_decide_eq_true h

theorem eq_zero_of_hasRoom {m : WebSessionsManager} {id : String} (h : m.hasRoom id = false) :
    m.sessions.readers id + 1 = 0 := of_not_not (of_decide_eq_false h)

theorem hasRoom_congr {m m' : WebSessionsManager} {id : String}
    (h : m'.sessions.readers id = m.sessions.readers id) : m'.hasRoom id = m.hasRoom id := by
  unfold hasRoom
  rw [h]

/-- Releasing what was opened leaves only a trace in the calls. -/
theorem releaseSession_openSession {m : WebSessionsManager} {id : String} {w : WebSession}
    (h : m.session? id = some w) (hroom : m.hasRoom id = true) :
    releaseSession { m with sessions := (m.sessions.openElement id).2 } id
      = (.released, m.addCalls [.opened id, .released id]) := by
  unfold releaseSession
  rw [SafeMap.releaseElement_openElement h (ne_zero_of_hasRoom hroom)]
  rfl

theorem visited_of_hasRoom {m : WebSessionsManager} {id : String} {w : WebSession}
    (h : m.session? id = some w) (hroom : m.hasRoom id = true) :
    m.visited id = (m.addCalls [.opened id, .released id]).sessions := by
  unfold visited
  rw [SafeMap.releaseElement_openElement h (ne_zero_of_hasRoom hroom)]
  rfl

/-- The release of what nobody has open throws. -/
theorem releaseSession_of_unread {m : WebSessionsManager} {id : String} {item : Option WebSession}
    (h : m.sessions.element id = some ⟨item, 0⟩) :
    m.releaseSession id = (.invalidClose, m.addCalls [.invalidClose id]) := by
  simp [releaseSession, SafeMap.releaseElement, h, SafeMap.record, addCalls]

theorem session?_updateLastActivity (m : WebSessionsManager) (id k : String) (now : ℤ) :
    (m.updateLastActivity id now).session? k
      = (m.session? k).map (fun w => if k = id then w.updateLastActivity now else w) := by
  unfold updateLastActivity session? SafeMap.modifyItem
  split
  · rename_i item numReaders helem
    rw [SafeMap.item?_set]
    by_cases hk : k = id
    · subst hk
      simp [SafeMap.item?, helem]
    · simp [hk]
  · rename_i helem
    by_cases hk : k = id
    · subst hk
      have hnone : m.sessions.item? k = none := by
        cases hitem : m.sessions.item? k with
        | none => rfl
        | some w =>
            obtain ⟨n, hn⟩ := SafeMap.element_of_item? hitem
            exact absurd hn (helem w n)
      simp [hnone]
    · simp [hk]

theorem destroySession_of_none {m : WebSessionsManager} {id : String}
    (h : m.session? id = none) : m.destroySession id = (.notFound, m) := by
  unfold destroySession
  rw [SafeMap.openElement_of_none h]

/-- The destruction of a session starts like any reader of it. -/
theorem destroySession_of_some {m : WebSessionsManager} {id : String} {w : WebSession}
    (h : m.session? id = some w) (hroom : m.hasRoom id = true) :
    (m.destroySession id).2.sessions
      = ((m.addCalls [.opened id, .released id]).sessions.destroyElement id).2 := by
  unfold destroySession
  rw [SafeMap.openElement_eq_some h]
  simp only [SafeMap.releaseElement_openElement h (ne_zero_of_hasRoom hroom),
    destroyReleased_sessions]
  rfl

/-- A session that a thread waits to destroy. -/
def isDying (m : WebSessionsManager) (id : String) : Bool :=
  match m.sessions.element id with
  | some ⟨none, _⟩ => true
  | _ => false

/-- The calls of a reader that opens a session, if it can, and releases it. -/
def touches (m : WebSessionsManager) (id : String) : List (Call String) :=
  if (m.session? id).isSome then [.opened id, .released id] else []

theorem touches_of_none {m : WebSessionsManager} {id : String} (h : m.session? id = none) :
    m.touches id = [] := by
  simp [touches, h]

theorem element_eq_none {m : WebSessionsManager} {id : String} (hd : m.isDying id = false)
    (h : m.session? id = none) : m.sessions.element id = none := by
  cases helem : m.sessions.element id with
  | none => rfl
  | some entry =>
      obtain ⟨item, numReaders⟩ := entry
      cases item with
      | none => simp [isDying, helem] at hd
      | some w => simp [session?, SafeMap.item?, helem] at h

end WebSessionsManager

/-! ## Properties that a request keeps -/

/-- The operations of the manager that the handlers of the routes use keep a property. -/
structure KeptByRoutes (P : WebSessionsManager → Prop) : Prop where
  updateLastActivity : ∀ {m} id now, P m → P (m.updateLastActivity id now)
  createSession : ∀ {m random session info id maxAge m'},
    m.createSession random session info = some (id, maxAge, m') → P m → P m'
  getUserSessionsInfo : ∀ {m} user, P m → P (m.getUserSessionsInfo user)

/-- All operations of the manager but the destruction of a session keep a property. -/
structure Kept (P : WebSessionsManager → Prop) : Prop extends KeptByRoutes P where
  openSession : ∀ {m} id now, P m → P (m.openSession id now).2
  releaseSession : ∀ {m} id, P m → P (m.releaseSession id).2

/-- A property of the session map that survives a change of an item and a new entry is kept
by the handlers of the routes. -/
theorem keptByRoutes_of_sessions {Q : SafeMap String WebSession UInt32 → Prop}
    (hmodify : ∀ s id f, Q s → Q (s.modifyItem id f))
    (hset : ∀ s id w, s.element id = none → Q s → Q (s.set id (some ⟨some w, 0⟩))) :
    KeptByRoutes (fun m => Q m.sessions) where
  updateLastActivity id now hq := hmodify _ id _ hq
  createSession := by
    intro m random session info id maxAge m' hcreate hq
    rcases m.createSession_cases random session info with hthrow | hnew | hnone
    · rw [hthrow.2] at hcreate
      cases hcreate
    · obtain ⟨-, id', m'', -, helem, hres, hsess⟩ := hnew
      rw [hres] at hcreate
      cases hcreate
      rw [hsess]
      exact hset _ _ _ helem hq
    · obtain ⟨-, maxAge', m'', hres, hsess⟩ := hnone
      rw [hres] at hcreate
      cases hcreate
      rw [hsess]
      exact hq
  getUserSessionsInfo _ hq := hq

/-- One that opening and releasing keep as well is kept by all but destructions. -/
theorem kept_of_sessions {Q : SafeMap String WebSession UInt32 → Prop}
    (hmodify : ∀ s id f, Q s → Q (s.modifyItem id f))
    (hset : ∀ s id w, s.element id = none → Q s → Q (s.set id (some ⟨some w, 0⟩)))
    (hopen : ∀ s id, Q s → Q (s.openElement id).2)
    (hrelease : ∀ s id, Q s → Q (s.releaseElement id).2) :
    Kept (fun m => Q m.sessions) where
  toKeptByRoutes := keptByRoutes_of_sessions hmodify hset
  openSession := by
    intro m id now hq
    unfold WebSessionsManager.openSession
    have hopened := hopen m.sessions id hq
    split
    · exact hq
    · rename_i hres
      rw [hres] at hopened
      exact hopened
  releaseSession id hq := hrelease _ id hq

/-! ### The empty id -/

namespace WebSessionsManager

/-- No session has the empty id: a new id has a colon in it. -/
def NoEmptyId (m : WebSessionsManager) : Prop := m.sessions.element "" = none

theorem NoEmptyId.ne_empty {m : WebSessionsManager} (h : m.NoEmptyId) {id : String}
    {entry : MapElement WebSession UInt32} (helem : m.sessions.element id = some entry) :
    id ≠ "" := by
  rintro rfl
  rw [h] at helem
  cases helem

/-- A session that is dying cannot be opened. -/
theorem session?_of_dying {m : WebSessionsManager} {id : String} {numReaders : UInt32}
    (helem : m.sessions.element id = some ⟨none, numReaders⟩) : m.session? id = none := by
  rw [session?, SafeMap.item?, helem]
  rfl

/-- A manager without sessions. -/
def fresh (maxInactiveSeconds maxSessionsPerUser : ℕ) : WebSessionsManager :=
  { maxInactiveSeconds := maxInactiveSeconds, maxSessionsPerUser := maxSessionsPerUser }

theorem noEmptyId_fresh (maxInactiveSeconds maxSessionsPerUser : ℕ) :
    NoEmptyId (fresh maxInactiveSeconds maxSessionsPerUser) := rfl

theorem NoEmptyId.destroySession {m : WebSessionsManager} (h : m.NoEmptyId) (id : String) :
    (m.destroySession id).2.NoEmptyId :=
  destroySession_kept (Q := fun s => s.element "" = none)
    (fun _ hs => SafeMap.element_eq_none_openElement hs id)
    (fun _ hs => SafeMap.element_eq_none_releaseElement hs id)
    (fun _ hs => SafeMap.element_eq_none_destroyElement hs id) h

end WebSessionsManager

theorem noEmptyId_kept : Kept WebSessionsManager.NoEmptyId where
  updateLastActivity id now h := SafeMap.element_eq_none_modifyItem h id _
  createSession := by
    intro m random session info id maxAge m' hcreate h
    rcases m.createSession_cases random session info with hthrow | hnew | hnone
    · rw [hthrow.2] at hcreate
      cases hcreate
    · obtain ⟨-, id', m'', hne, -, hres, hsess⟩ := hnew
      rw [hres] at hcreate
      cases hcreate
      unfold WebSessionsManager.NoEmptyId
      rw [hsess, SafeMap.element_set, if_neg (Ne.symm hne)]
      exact h
    · obtain ⟨-, maxAge', m'', hres, hsess⟩ := hnone
      rw [hres] at hcreate
      cases hcreate
      unfold WebSessionsManager.NoEmptyId
      rw [hsess]
      exact h
  getUserSessionsInfo _ h := h
  openSession := by
    intro m id now h
    cases hitem : m.session? id with
    | none =>
        rw [WebSessionsManager.openSession_of_none hitem]
        exact h
    | some w =>
        obtain ⟨maxAge, hopen⟩ := WebSessionsManager.openSession_of_some hitem now
        rw [hopen]
        exact SafeMap.element_eq_none_openElement h id
  releaseSession id h := SafeMap.element_eq_none_releaseElement h id

namespace ClientHandler

/-- Cookies are all that the cookie functions change. -/
theorem setJSSessionHalfIDCookie_eq (h : ClientHandler) (id : String) :
    ∃ cookies, h.setJSSessionHalfIDCookie id = { h with cookies := cookies } := by
  unfold setJSSessionHalfIDCookie
  split_ifs
  · exact ⟨_, rfl⟩
  · exact ⟨_, rfl⟩

theorem logoutCookies_eq (h : ClientHandler) (parent : Option (WebSession × ℕ)) :
    ∃ cookies, h.logoutCookies parent = { h with cookies := cookies } := by
  cases parent with
  | none => exact ⟨_, rfl⟩
  | some p =>
      obtain ⟨w, maxAge⟩ := p
      obtain ⟨cookies, hc⟩ :=
        (h.setJSSessionTimeOutCookie maxAge).setJSSessionHalfIDCookie_eq h.impersonatorSessionID
      unfold logoutCookies
      simp only
      rw [hc]
      exact ⟨_, rfl⟩

variable {Regex : Type*} {config : WebParameters Regex} {r : Request} {e : Surroundings}
variable {P : WebSessionsManager → Prop} {h : ClientHandler}

/-- With a session, the one under the current id is released, and unless that throws, the logout
follows. -/
theorem sessionCleanup_of_some {result : SafeMap.Release} {m : WebSessionsManager}
    (hauth : h.authSession.isSome)
    (hrel : h.sessionsManager.releaseSession h.sessionID = (result, m)) :
    ∃ cookies, sessionCleanup r e h =
      if result = .invalidClose then (.threw, { h with sessionsManager := m, cookies := cookies })
      else sessionLogout r e { h with sessionsManager := m, cookies := cookies } := by
  obtain ⟨cookies, hc⟩ :=
    (h.setJSSessionTimeOutCookie h.sessionMaxAge).setJSSessionHalfIDCookie_eq h.sessionID
  refine ⟨Function.update cookies "sessionId" (some ⟨h.sessionID, some h.sessionMaxAge, true⟩), ?_⟩
  unfold sessionCleanup
  rw [if_pos hauth, hc]
  -- the cookies are no part of the manager
  dsimp only [setSecureCookie, setCookie, setJSSessionTimeOutCookie]
  rw [hrel]
  cases result with
  | invalidClose => rfl
  | released => rfl
  | notFound => rfl

/-- Without a session there is nothing to release. -/
theorem sessionCleanup_of_none (hauth : h.authSession = none) :
    sessionCleanup r e h = sessionLogout r e h := by
  unfold sessionCleanup
  simp [hauth]

section Routes

variable (hP : KeptByRoutes P)
include hP

theorem createLoginSession_kept {token : Token} (hp : P h.sessionsManager) :
    P (createLoginSession r e h token).2.sessionsManager := by
  unfold createLoginSession
  simp only
  split
  · exact hp
  · rename_i sessionID maxAge m hcreate
    have hm := hP.createSession hcreate hp
    split_ifs <;> exact hm

theorem handleAuthLoginFunction_kept (hp : P h.sessionsManager) :
    P (handleAuthLoginFunction config r e h).2.sessionsManager := by
  unfold handleAuthLoginFunction
  split
  · exact hp
  · split
    · exact hp
    · split
      · exact hp
      · exact createLoginSession_kept hP hp
    · exact hp

theorem handleAuthFunctions_kept {authFunctionName : String} (hp : P h.sessionsManager) :
    P (handleAuthFunctions config r e h authFunctionName).2.sessionsManager := by
  have hinfo : P (handleAuthRetrieveInfoFunction h).2.sessionsManager := by
    unfold handleAuthRetrieveInfoFunction
    split
    · exact hp
    · exact hP.getUserSessionsInfo _ hp
  have hactivity : P (handleAuthUpdateLastActivityFunction r e h).2.sessionsManager := by
    unfold handleAuthUpdateLastActivityFunction
    split
    · exact hp
    · exact hP.updateLastActivity _ _ hp
  have hlogout : P (handleAuthLogoutFunction r h).2.sessionsManager := by
    unfold handleAuthLogoutFunction
    split <;> exact hp
  unfold handleAuthFunctions
  split_ifs
  · exact handleAuthLoginFunction_kept hP hp
  · exact hp
  · exact hinfo
  · exact hactivity
  · exact hlogout
  · exact hp

theorem handleRoute_kept (hp : P h.sessionsManager) (target : Route) :
    P (handleRoute config r e h target).2.sessionsManager := by
  have hupd : P (updateActivityOnUsage e h).sessionsManager := by
    unfold updateActivityOnUsage
    split_ifs
    · exact hP.updateLastActivity _ _ hp
    · exact hp
  cases target with
  | api apiVersion resource => exact hupd
  | apiVersionOutOfRange => exact hp
  | apiDisallowedOrigin => exact hp
  | auth authFunction => exact handleAuthFunctions_kept hP hp
  | info => exact hp
  | dynamic route dynUrlWithoutBase => exact hp
  | regularFile => exact hupd

end Routes

variable (hP : Kept P)
include hP

theorem updateActivityOnImpersonatorSession_kept (hp : P h.sessionsManager) :
    P (updateActivityOnImpersonatorSession e h).2.sessionsManager := by
  unfold updateActivityOnImpersonatorSession
  split_ifs
  · exact hp
  · have hopen := hP.openSession h.impersonatorSessionID e.now hp
    cases hres : h.sessionsManager.openSession h.impersonatorSessionID e.now with
    | mk opened m =>
        rw [hres] at hopen
        cases opened with
        | none =>
            have hrel := hP.releaseSession h.impersonatorSessionID hopen
            simp only
            split
            · rename_i hrel'
              rw [hrel'] at hrel
              exact hrel
            · rename_i hrel'
              rw [hrel'] at hrel
              exact hrel
        | some p =>
            have hrel := hP.releaseSession h.impersonatorSessionID
              (hP.updateLastActivity h.impersonatorSessionID e.now hopen)
            simp only
            split
            · rename_i hrel'
              rw [hrel'] at hrel
              exact hrel
            · rename_i hrel'
              rw [hrel'] at hrel
              exact hrel

theorem openCurrentSession_kept (hp : P h.sessionsManager) :
    P (openCurrentSession config r e h).2.sessionsManager := by
  have hopen := hP.openSession h.sessionID e.now hp
  unfold openCurrentSession
  split
  · rename_i hres
    rw [hres] at hopen
    exact hopen
  · rename_i hres
    rw [hres] at hopen
    simp only
    split_ifs <;> exact hopen

theorem findParent_kept (hp : P h.sessionsManager) :
    P (findParent e h).2.sessionsManager := by
  have hopen := hP.openSession h.impersonatorSessionID e.now hp
  unfold findParent
  split
  · rename_i hres
    rw [hres] at hopen
    exact hopen
  · rename_i parent m hres
    rw [hres] at hopen
    have hrel := hP.releaseSession h.impersonatorSessionID hopen
    split
    · rename_i hrel'
      rw [hrel'] at hrel
      exact hrel
    · rename_i hrel'
      rw [hrel'] at hrel
      exact hrel

omit hP in
theorem findParent_eq (h : ClientHandler) : ∃ m, (findParent e h).2 = h.withManager m := by
  unfold findParent
  split
  · exact ⟨_, rfl⟩
  · split <;> exact ⟨_, rfl⟩

theorem sessionLogout_kept (hp : P h.sessionsManager)
    (hd : ∀ {m}, P m → P (m.destroySession h.sessionID).2) :
    P (sessionLogout r e h).2.sessionsManager := by
  unfold sessionLogout
  split
  · exact hp
  · have hfind := findParent_kept (e := e) hP hp
    obtain ⟨m, hm⟩ := findParent_eq (e := e) h
    rw [hm] at hfind
    have hdestroy : ∀ cookies', P (destroyCurrentSession
        { h.withManager m with cookies := cookies' }).2.sessionsManager := by
      intro cookies'
      unfold destroyCurrentSession
      split
      · exact hfind
      · have hdm := hd hfind
        split <;>
        · rename_i hres
          change (h.withManager m).sessionsManager.destroySession h.sessionID = _ at hres
          rw [hres] at hdm
          exact hdm
    split
    · rename_i h' hres
      rw [hres] at hm
      rw [show h' = _ from hm]
      exact hfind
    · rename_i parent h' hres
      rw [hres] at hm
      rw [show h' = _ from hm]
      obtain ⟨cookies, hc⟩ := (h.withManager m).logoutCookies_eq parent
      split
      · rw [hc]
        exact hdestroy cookies
      · exact hdestroy (h.withManager m).cookies

theorem sessionCleanup_kept (hp : P h.sessionsManager)
    (hd : ∀ {m}, P m → P (m.destroySession h.sessionID).2) :
    P (sessionCleanup r e h).2.sessionsManager := by
  by_cases hauth : h.authSession.isSome
  · have hrel := hP.releaseSession h.sessionID hp
    rcases hres : h.sessionsManager.releaseSession h.sessionID with ⟨result, m⟩
    obtain ⟨cookies, hcleanup⟩ :=
      sessionCleanup_of_some (r := r) (e := e) hauth hres
    rw [hres] at hrel
    rw [hcleanup]
    split
    · exact hrel
    · exact sessionLogout_kept hP hrel hd
  · rw [sessionCleanup_of_none (Option.not_isSome_iff_eq_none.mp hauth)]
    exact sessionLogout_kept hP hp hd

/-- A request that `sessionStart` let pass keeps what the destruction of its session
keeps. -/
theorem serve_kept (hp : P h.sessionsManager)
    (hd : ∀ {code h'}, handleRoute config r e h (route config r) = (some code, h') →
      ∀ {m}, P m → P (m.destroySession h'.sessionID).2) :
    P (serve config r e h).2.sessionsManager := by
  have hroute : P (handleRoute config r e h (route config r)).2.sessionsManager :=
    handleRoute_kept hP.toKeptByRoutes hp _
  unfold serve
  split
  · rename_i hres
    rw [hres] at hroute
    exact hroute
  · rename_i code h' hres
    rw [hres] at hroute
    have hclean := sessionCleanup_kept (r := r) (e := e) hP hroute (hd hres)
    split <;>
    · rename_i hfin
      rw [hfin] at hclean
      exact hclean

end ClientHandler

/-! ## Where a request goes -/

namespace ClientHandler

variable {Regex : Type*} (config : WebParameters Regex) (r : Request) (e : Surroundings)

/-- The request gets as far as its session: no browser message, no redirection, cookies of
the right format, and the header that goes with the session cookie. -/
def admitted : Bool :=
  !isSupportedUserAgent r.userAgent && (config.redirections r.uri).isNone &&
    validateSessionIDFormat r.sessionId && validateSessionIDFormat r.impersonatorSessionId &&
    (r.sessionId = "" || validateSessionAntiCSRFMechanism r)

/-- The session that the cookie of a request names, as `sessionStart` finds it: if it is the
impersonator's too, its activity was just updated. -/
def presented (m : WebSessionsManager) : Option WebSession :=
  (m.session? r.sessionId).map
    (fun w => if r.sessionId = r.impersonatorSessionId then w.updateLastActivity e.now else w)

/-- The request is a login that passes every check, over the session that is open. -/
def acceptedLogin (current : Option WebSession) : Option Token :=
  if route config r = .auth "login" ∧ r.origin ∈ config.permittedLoginOrigins then
    match loginToken config r e with
    | some (.accepted token) =>
      if (refuseLogin config token current).isNone then some token else none
    | _ => none
  else none

/-- The handler of the route throws, or never returns. -/
def throws (session : Option Session) : Bool :=
  match route config r with
  | .api apiVersion resource => (e.handleAPIRequest apiVersion resource session).isNone
  | .apiVersionOutOfRange => true
  | .auth authFunction =>
    authFunction = "login" && r.origin ∈ config.permittedLoginOrigins &&
      (loginToken config r e).isNone
  | .dynamic route dynUrlWithoutBase => (e.handler route dynUrlWithoutBase).isNone
  | .regularFile => (regularFileStatus config r e session).isNone
  | .apiDisallowedOrigin | .info => false

/-- The request is a logout that `handleAuthLogoutFunction` accepts. -/
def acceptedLogout : Bool :=
  route config r = .auth "logout" && r.origin = "" && validateSessionAntiCSRFMechanism r

variable {config r e}

/-- A handler that goes on with the session it had. -/
structure SameSession (h h' : ClientHandler) : Prop where
  sessionID : h'.sessionID = h.sessionID
  authSession : h'.authSession = h.authSession
  impersonatorSessionID : h'.impersonatorSessionID = h.impersonatorSessionID

theorem SameSession.refl (h : ClientHandler) : SameSession h h := ⟨rfl, rfl, rfl⟩

theorem sameSession_updateActivityOnUsage (e : Surroundings) (h : ClientHandler) :
    SameSession h (updateActivityOnUsage e h) := by
  unfold updateActivityOnUsage
  split <;> exact ⟨rfl, rfl, rfl⟩

/-- What the login function does: it throws; it makes a session of a token; or it refuses. -/
theorem handleAuthLoginFunction_cases (hroute : route config r = .auth "login")
    (h : ClientHandler) :
    (throws config r e h.authSession = true ∧
      acceptedLogin config r e h.currentWebSession = none ∧
      handleAuthLoginFunction config r e h = (none, h)) ∨
    (throws config r e h.authSession = false ∧
      ∃ token, acceptedLogin config r e h.currentWebSession = some token ∧
        handleAuthLoginFunction config r e h = createLoginSession r e h token) ∨
    (throws config r e h.authSession = false ∧
      acceptedLogin config r e h.currentWebSession = none ∧
      ∃ code, handleAuthLoginFunction config r e h = (some code, h)) := by
  unfold throws acceptedLogin handleAuthLoginFunction
  rw [hroute]
  by_cases horigin : r.origin ∈ config.permittedLoginOrigins
  · cases htoken : loginToken config r e with
    | none => simp [horigin]
    | some v =>
        cases v with
        | accepted token =>
            cases hrefuse : refuseLogin config token h.currentWebSession with
            | none => simp [horigin, hrefuse]
            | some code => simp [horigin, hrefuse]
        | rejected => simp [horigin]
        | threw => simp [horigin]
  · simp [horigin]

/-- The other authentication functions return, with the session they had. -/
theorem handleAuthFunctions_of_ne_login {authFunctionName : String}
    (hne : authFunctionName ≠ "login") (h : ClientHandler) :
    ∃ code h', handleAuthFunctions config r e h authFunctionName = (some code, h') ∧
      SameSession h h' := by
  have hinfo : SameSession h (handleAuthRetrieveInfoFunction h).2 := by
    unfold handleAuthRetrieveInfoFunction
    split <;> exact ⟨rfl, rfl, rfl⟩
  have hactivity : SameSession h (handleAuthUpdateLastActivityFunction r e h).2 := by
    unfold handleAuthUpdateLastActivityFunction
    split <;> exact ⟨rfl, rfl, rfl⟩
  have hlogout : SameSession h (handleAuthLogoutFunction r h).2 := by
    unfold handleAuthLogoutFunction
    split <;> exact ⟨rfl, rfl, rfl⟩
  unfold handleAuthFunctions
  rw [if_neg hne]
  split_ifs
  · exact ⟨_, h, rfl, .refl h⟩
  · exact ⟨_, _, rfl, hinfo⟩
  · exact ⟨_, _, rfl, hactivity⟩
  · exact ⟨_, _, rfl, hlogout⟩
  · exact ⟨_, h, rfl, .refl h⟩

theorem acceptedLogin_of_ne_login (hne : route config r ≠ .auth "login")
    (current : Option WebSession) : acceptedLogin config r e current = none := by
  unfold acceptedLogin
  rw [if_neg (fun h => hne h.1)]

variable (config r e) in
/-- What a route does: it throws; it is an accepted login; or it returns with the session
the request came with. -/
theorem handleRoute_cases (h : ClientHandler) :
    (throws config r e h.authSession = true ∧
      acceptedLogin config r e h.currentWebSession = none ∧
      (handleRoute config r e h (route config r)).1 = none) ∨
    (throws config r e h.authSession = false ∧
      ∃ token, acceptedLogin config r e h.currentWebSession = some token ∧
        handleRoute config r e h (route config r) = createLoginSession r e h token) ∨
    (throws config r e h.authSession = false ∧
      acceptedLogin config r e h.currentWebSession = none ∧
      ∃ code h', handleRoute config r e h (route config r) = (some code, h') ∧
        SameSession h h') := by
  have hnologin : route config r ≠ .auth "login" →
      ∀ current, acceptedLogin config r e current = none := acceptedLogin_of_ne_login
  cases hroute : route config r with
  | api apiVersion resource =>
      cases hapi : e.handleAPIRequest apiVersion resource h.authSession with
      | none =>
          exact .inl ⟨by simp [throws, hroute, hapi], hnologin (by simp [hroute]) _,
            by simp [handleRoute, hapi]⟩
      | some code =>
          exact .inr (.inr ⟨by simp [throws, hroute, hapi], hnologin (by simp [hroute]) _,
            code, _, by simp [handleRoute, hapi], sameSession_updateActivityOnUsage e h⟩)
  | apiVersionOutOfRange =>
      exact .inl ⟨by simp [throws, hroute], hnologin (by simp [hroute]) _, rfl⟩
  | apiDisallowedOrigin =>
      exact .inr (.inr ⟨by simp [throws, hroute], hnologin (by simp [hroute]) _, _, h, rfl,
        .refl h⟩)
  | info =>
      exact .inr (.inr ⟨by simp [throws, hroute], hnologin (by simp [hroute]) _, _, h, rfl,
        .refl h⟩)
  | dynamic route dynUrlWithoutBase =>
      cases hdyn : e.handler route dynUrlWithoutBase with
      | none =>
          exact .inl ⟨by simp [throws, hroute, hdyn], hnologin (by simp [hroute]) _,
            by simp [handleRoute, hdyn]⟩
      | some code =>
          exact .inr (.inr ⟨by simp [throws, hroute, hdyn], hnologin (by simp [hroute]) _,
            code, h, by simp [handleRoute, hdyn], .refl h⟩)
  | regularFile =>
      cases hfile : regularFileStatus config r e h.authSession with
      | none =>
          exact .inl ⟨by simp [throws, hroute, hfile], hnologin (by simp [hroute]) _,
            by simp [handleRoute, hfile]⟩
      | some code =>
          exact .inr (.inr ⟨by simp [throws, hroute, hfile], hnologin (by simp [hroute]) _,
            code, _, by simp [handleRoute, hfile], sameSession_updateActivityOnUsage e h⟩)
  | auth authFunction =>
      by_cases hlogin : authFunction = "login"
      · subst hlogin
        have heq : handleRoute config r e h (.auth "login") =
            handleAuthLoginFunction config r e h := by
          simp [handleRoute, handleAuthFunctions]
        rw [heq]
        rcases handleAuthLoginFunction_cases (e := e) hroute h with hthrow | hcreate | hrefuse
        · exact .inl ⟨hthrow.1, hthrow.2.1, by rw [hthrow.2.2]⟩
        · exact .inr (.inl hcreate)
        · obtain ⟨hthrow, hnone, code, hcode⟩ := hrefuse
          exact .inr (.inr ⟨hthrow, hnone, code, h, hcode, .refl h⟩)
      · obtain ⟨code, h', hres, hsame⟩ : ∃ code h', handleRoute config r e h (.auth authFunction)
            = (some code, h') ∧ SameSession h h' :=
          handleAuthFunctions_of_ne_login hlogin h
        exact .inr (.inr ⟨by simp [throws, hroute, hlogin], hnologin (by simp [hroute, hlogin]) _,
          code, h', hres, hsame⟩)

/-- An accepted login is what its route does. -/
theorem handleRoute_of_acceptedLogin {h : ClientHandler} {token : Token}
    (hlogin : acceptedLogin config r e h.currentWebSession = some token) :
    handleRoute config r e h (route config r) = createLoginSession r e h token := by
  rcases handleRoute_cases config r e h with hthrow | hcreate | hreturn
  · rw [hthrow.2.1] at hlogin
    cases hlogin
  · obtain ⟨-, token', htoken, hres⟩ := hcreate
    rw [htoken] at hlogin
    cases hlogin
    exact hres
  · rw [hreturn.2.1] at hlogin
    cases hlogin

/-! ## The beginning of a request -/

/-- The handler with the ids that a request carries. -/
def carrying (h : ClientHandler) (r : Request) : ClientHandler :=
  { h with sessionID := r.sessionId, impersonatorSessionID := r.impersonatorSessionId }

/-- A request that is not admitted leaves the sessions alone. -/
theorem procHTTPClientContent_of_not_admitted (hadm : admitted config r = false)
    (h : ClientHandler) :
    (procHTTPClientContent config r e h).2.sessionsManager = h.sessionsManager ∧
    (procHTTPClientContent config r e h).2.events = h.events := by
  unfold procHTTPClientContent
  by_cases hagent : isSupportedUserAgent r.userAgent = true
  · rw [if_pos hagent]
    exact ⟨rfl, rfl⟩
  by_cases hredirect : (config.redirections r.uri).isSome = true
  · rw [if_neg hagent, if_pos hredirect]
    exact ⟨rfl, rfl⟩
  rw [if_neg hagent, if_neg hredirect]
  unfold sessionStart
  by_cases hformat : (!validateSessionIDFormat r.sessionId ||
      !validateSessionIDFormat r.impersonatorSessionId) = true
  · simp only [if_pos hformat]
    exact ⟨rfl, rfl⟩
  by_cases hcsrf : r.sessionId ≠ "" ∧ validateSessionAntiCSRFMechanism r = false
  · simp only [if_neg hformat, if_pos hcsrf]
    exact ⟨rfl, rfl⟩
  · exfalso
    simp only [Bool.or_eq_true, Bool.not_eq_true', not_or, Bool.not_eq_false] at hformat
    rw [not_and, Bool.not_eq_false] at hcsrf
    have hhalf : (r.sessionId = "" || validateSessionAntiCSRFMechanism r) = true := by
      by_cases hid : r.sessionId = ""
      · simp [hid]
      · simp [hcsrf hid]
    simp only [Option.not_isSome_iff_eq_none] at hredirect
    simp [admitted, hagent, hredirect, hformat, hhalf] at hadm

/-- A request that is admitted goes through the impersonator's session and its own. -/
theorem procHTTPClientContent_of_admitted (hadm : admitted config r = true)
    (h : ClientHandler) :
    procHTTPClientContent config r e h =
      match updateActivityOnImpersonatorSession e (h.carrying r) with
      | (false, h) => (.threw, h)
      | (true, h) =>
        if (openCurrentSession config r e h).1 ≠ .S_200_OK then
          (.answered (openCurrentSession config r e h).1, (openCurrentSession config r e h).2)
        else serve config r e (openCurrentSession config r e h).2 := by
  simp only [admitted, Bool.and_eq_true, Bool.not_eq_true', Option.isNone_iff_eq_none] at hadm
  obtain ⟨⟨⟨⟨hagent, hredirect⟩, hid⟩, himp⟩, hcsrf⟩ := hadm
  have hcsrf' : ¬ (r.sessionId ≠ "" ∧ validateSessionAntiCSRFMechanism r = false) := by
    rintro ⟨hne, hfail⟩
    simp [hne, hfail] at hcsrf
  unfold procHTTPClientContent sessionStart carrying
  simp only [hagent, hredirect, hid, himp, if_neg hcsrf']
  simp only [Bool.not_true, Bool.or_self, Bool.false_eq_true, if_false, Option.isSome_none]
  cases updateActivityOnImpersonatorSession e
    { h with sessionID := r.sessionId, impersonatorSessionID := r.impersonatorSessionId } with
  | mk ok h' =>
      cases ok with
      | false => rfl
      | true => rfl

/-- A property that every operation keeps, destructions included, is kept by a request. -/
theorem procHTTPClientContent_kept {P : WebSessionsManager → Prop} (hP : Kept P)
    (hdestroy : ∀ {m} id, P m → P (m.destroySession id).2) {h : ClientHandler}
    (hp : P h.sessionsManager) : P (procHTTPClientContent config r e h).2.sessionsManager := by
  cases hadm : admitted config r with
  | false =>
      rw [(procHTTPClientContent_of_not_admitted hadm h).1]
      exact hp
  | true =>
      have hupd := updateActivityOnImpersonatorSession_kept (e := e) hP (h := h.carrying r) hp
      rw [procHTTPClientContent_of_admitted hadm]
      split
      · rename_i hres
        rw [hres] at hupd
        exact hupd
      · rename_i h' hres
        rw [hres] at hupd
        have hopen : P (openCurrentSession config r e h').2.sessionsManager :=
          openCurrentSession_kept hP hupd
        split
        · exact hopen
        · exact serve_kept hP hopen (fun _ => hdestroy _)

/-- An impersonator's session that nobody waits to destroy is opened, updated and released. -/
theorem updateActivityOnImpersonatorSession_of_not_dying {h : ClientHandler}
    (hempty : h.sessionsManager.sessions.element "" = none)
    (hd : h.sessionsManager.isDying h.impersonatorSessionID = false)
    (hroom : h.sessionsManager.hasRoom h.impersonatorSessionID = true) :
    updateActivityOnImpersonatorSession e h
      = (true, h.withManager
          ((h.sessionsManager.updateLastActivity h.impersonatorSessionID e.now).addCalls
            (h.sessionsManager.touches h.impersonatorSessionID))) := by
  cases hitem : h.sessionsManager.session? h.impersonatorSessionID with
  | none =>
      have helem := WebSessionsManager.element_eq_none hd hitem
      have hsame : (h.sessionsManager.updateLastActivity h.impersonatorSessionID e.now).addCalls []
          = h.sessionsManager := by
        simp [WebSessionsManager.updateLastActivity, WebSessionsManager.addCalls,
          SafeMap.modifyItem, helem]
      rw [WebSessionsManager.touches_of_none hitem, hsame]
      unfold updateActivityOnImpersonatorSession
      split
      · rfl
      · rw [WebSessionsManager.openSession_of_none hitem]
        simp only [WebSessionsManager.releaseSession,
          SafeMap.releaseElement_of_element_none helem]
  | some w =>
      have hne : h.impersonatorSessionID ≠ "" := by
        intro hid
        rw [hid] at hitem
        simp [WebSessionsManager.session?, SafeMap.item?, hempty] at hitem
      obtain ⟨maxAge, hopen⟩ := WebSessionsManager.openSession_of_some hitem e.now
      unfold updateActivityOnImpersonatorSession
      rw [if_neg hne, hopen]
      simp only [WebSessionsManager.releaseSession, WebSessionsManager.updateLastActivity,
        SafeMap.releaseElement_modifyItem_openElement hitem
          (WebSessionsManager.ne_zero_of_hasRoom hroom)]
      simp [WebSessionsManager.touches, hitem, WebSessionsManager.addCalls]

/-- If its readers overflow, the release throws. -/
theorem updateActivityOnImpersonatorSession_of_full {h : ClientHandler} {w : WebSession}
    (hempty : h.sessionsManager.sessions.element "" = none)
    (hitem : h.sessionsManager.session? h.impersonatorSessionID = some w)
    (hfull : h.sessionsManager.hasRoom h.impersonatorSessionID = false) :
    ∃ m, updateActivityOnImpersonatorSession e h = (false, h.withManager m) ∧
      m.sessions.calls = h.sessionsManager.sessions.calls ++
        [.opened h.impersonatorSessionID, .invalidClose h.impersonatorSessionID] := by
  have hne : h.impersonatorSessionID ≠ "" := by
    intro hid
    rw [hid] at hitem
    simp [WebSessionsManager.session?, SafeMap.item?, hempty] at hitem
  obtain ⟨maxAge, hopen⟩ := WebSessionsManager.openSession_of_some hitem e.now
  obtain ⟨hresult, hcalls⟩ := SafeMap.releaseElement_modifyItem_openElement_of_full hitem
    (WebSessionsManager.eq_zero_of_hasRoom hfull) (·.updateLastActivity e.now)
  unfold updateActivityOnImpersonatorSession
  rw [if_neg hne, hopen]
  simp only [WebSessionsManager.releaseSession, WebSessionsManager.updateLastActivity, hresult]
  exact ⟨_, rfl, hcalls⟩

/-- The handler that has a session open. -/
def opened (h : ClientHandler) (w : WebSession) (maxAge : ℕ) : ClientHandler :=
  { h with
    sessionsManager :=
      { h.sessionsManager with sessions := (h.sessionsManager.sessions.openElement h.sessionID).2 }
    currentWebSession := some w
    sessionMaxAge := maxAge
    authSession := some w.authSession
    currentSessionId := h.sessionID }

theorem openCurrentSession_of_none {h : ClientHandler}
    (hitem : h.sessionsManager.session? h.sessionID = none) :
    openCurrentSession config r e h
      = (.S_200_OK, { h with destroySession := true, sessionID := "" }) := by
  unfold openCurrentSession
  rw [WebSessionsManager.openSession_of_none hitem]

variable (config r e) in
theorem openCurrentSession_of_some {h : ClientHandler} {w : WebSession}
    (hitem : h.sessionsManager.session? h.sessionID = some w) :
    ∃ maxAge, openCurrentSession config r e h
      = if clientMatches config r w then (.S_200_OK, h.opened w maxAge)
        else (.S_403_FORBIDDEN,
          { h.opened w maxAge with sessionID := "", impersonatorSessionID := "" }) := by
  obtain ⟨maxAge, hopen⟩ := WebSessionsManager.openSession_of_some hitem e.now
  refine ⟨maxAge, ?_⟩
  unfold openCurrentSession
  rw [hopen]
  rfl

/-! ## Logins -/

/-- What an accepted login does: it throws; it goes on as the new session, which nobody has
opened; or it goes on without a session id. -/
theorem createLoginSession_cases (h : ClientHandler) (token : Token) :
    (e.random = none ∧ createLoginSession r e h token = (none, h)) ∨
    (h.sessionsManager.creates e.random token.getSubject = true ∧ ∃ id w h',
      id ≠ "" ∧ h.sessionsManager.sessions.element id = none ∧
      createLoginSession r e h token = (some .S_200_OK, h') ∧
      h'.sessionID = id ∧ h'.authSession.isSome ∧
      h'.sessionsManager.sessions = h.sessionsManager.sessions.set id (some ⟨some w, 0⟩) ∧
      h'.events = h.events ++ [.loggedIn id]) ∨
    (h.sessionsManager.creates e.random token.getSubject = false ∧ ∃ h',
      createLoginSession r e h token = (some .S_503_SERVICE_UNAVAILABLE, h') ∧
      h'.sessionID = "" ∧ h'.authSession = h.authSession ∧
      h'.impersonatorSessionID = h.impersonatorSessionID ∧
      h'.sessionsManager.sessions = h.sessionsManager.sessions ∧ h'.events = h.events) := by
  unfold createLoginSession
  rcases h.sessionsManager.createSession_cases e.random (Session.ofToken token e.now)
    (networkClientInfo r e) with hthrow | hcreate | hnone
  · obtain ⟨hrandom, hres⟩ := hthrow
    exact .inl ⟨hrandom, by simp only [hres]⟩
  · obtain ⟨hcreates, id, m, hid, helem, hres, hsess⟩ := hcreate
    simp only [hres, if_neg hid]
    refine .inr (.inl ⟨hcreates, id, ⟨Session.ofToken token e.now, networkClientInfo r e⟩, _, hid,
      helem, rfl, ?_⟩)
    split <;> exact ⟨rfl, rfl, hsess, rfl⟩
  · obtain ⟨hcreates, maxAge, m, hres, hsess⟩ := hnone
    simp only [hres, if_true]
    exact .inr (.inr ⟨hcreates, _, rfl, rfl, rfl, rfl, hsess, rfl⟩)

/-! ## The end of a request -/

theorem destroyCurrentSession_eq (h : ClientHandler) :
    ∃ m, (destroyCurrentSession h).2 = h.withManager m := by
  unfold destroyCurrentSession
  split
  · exact ⟨_, rfl⟩
  · split <;> exact ⟨_, rfl⟩

/-- Sessions and cookies are all that the end of a request changes. -/
theorem sessionLogout_eq (h : ClientHandler) :
    ∃ m cookies, (sessionLogout r e h).2 = { h with sessionsManager := m, cookies := cookies } := by
  unfold sessionLogout
  split
  · exact ⟨_, _, rfl⟩
  · obtain ⟨m, hm⟩ := findParent_eq (e := e) h
    split
    · rename_i h' hres
      rw [hres] at hm
      exact ⟨m, _, hm⟩
    · rename_i parent h' hres
      rw [hres] at hm
      rw [show h' = _ from hm]
      obtain ⟨cookies, hc⟩ := (h.withManager m).logoutCookies_eq parent
      rw [hc]
      split
      · obtain ⟨m', hm'⟩ := destroyCurrentSession_eq { h.withManager m with cookies := cookies }
        exact ⟨m', cookies, hm'⟩
      · obtain ⟨m', hm'⟩ := destroyCurrentSession_eq (h.withManager m)
        exact ⟨m', h.cookies, hm'⟩

theorem sessionCleanup_eq (h : ClientHandler) :
    ∃ m cookies, (sessionCleanup r e h).2 =
      { h with sessionsManager := m, cookies := cookies } := by
  by_cases hauth : h.authSession.isSome
  · rcases hres : h.sessionsManager.releaseSession h.sessionID with ⟨result, m⟩
    obtain ⟨cookies, hcleanup⟩ :=
      sessionCleanup_of_some (r := r) (e := e) hauth hres
    rw [hcleanup]
    split
    · exact ⟨_, _, rfl⟩
    · obtain ⟨m', cookies', hm'⟩ := sessionLogout_eq (r := r) (e := e)
        { h with sessionsManager := m, cookies := cookies }
      exact ⟨m', cookies', hm'⟩
  · rw [sessionCleanup_of_none (Option.not_isSome_iff_eq_none.mp hauth)]
    exact sessionLogout_eq h

/-- A release that throws ends the request. -/
theorem sessionCleanup_of_invalidClose {h : ClientHandler} {m : WebSessionsManager}
    (hauth : h.authSession.isSome)
    (hrel : h.sessionsManager.releaseSession h.sessionID = (.invalidClose, m)) :
    (sessionCleanup r e h).2.sessionsManager = m := by
  obtain ⟨cookies, hcleanup⟩ := sessionCleanup_of_some (r := r) (e := e) hauth hrel
  rw [hcleanup, if_pos rfl]

/-- A request whose handler returned ends with its cleanup. -/
theorem serve_of_returned {h h' : ClientHandler} {code : StatusCode}
    (hroute : handleRoute config r e h (route config r) = (some code, h')) :
    (serve config r e h).2 = (sessionCleanup r e h').2 := by
  unfold serve
  rw [hroute]
  simp only
  split <;>
  · rename_i hfin
    rw [hfin]

theorem serve_of_threw {h : ClientHandler}
    (hroute : (handleRoute config r e h (route config r)).1 = none) :
    (serve config r e h).2 = (handleRoute config r e h (route config r)).2 := by
  unfold serve
  cases hres : handleRoute config r e h (route config r) with
  | mk code h' =>
      rw [hres] at hroute
      simp only at hroute
      subst hroute
      rfl

end ClientHandler

/-! ## Steps of the server -/

namespace WebSessionsManager

variable {Regex : Type*} {config : WebParameters Regex}

theorem step_request (m : WebSessionsManager) (r : Request) (e : Surroundings) :
    m.step config (.request r e) = some
      ((ClientHandler.procHTTPClientContent config r e m.newHandler).2.sessionsManager,
        some ⟨(ClientHandler.procHTTPClientContent config r e m.newHandler).1,
          (ClientHandler.procHTTPClientContent config r e m.newHandler).2.events⟩) := by
  simp only [step]

theorem NoEmptyId.gcVisit {m : WebSessionsManager} (h : m.NoEmptyId) (key : String) (now : ℤ) :
    (m.gcVisit key now).NoEmptyId :=
  gcVisit_kept (Q := fun s => s.element "" = none)
    (fun _ hs => SafeMap.element_eq_none_openElement hs key)
    (fun _ hs => SafeMap.element_eq_none_releaseElement hs key)
    (fun _ hs => SafeMap.element_eq_none_destroyElement hs key) h now

/-- A thread that goes on takes a dying session out of the map. -/
theorem wake_sessions (m : WebSessionsManager) (key : String) :
    (m.wake key).sessions = m.sessions ∨
      m.sessions.finishDestroy key = some (m.wake key).sessions := by
  unfold wake
  split
  · rename_i destroyer sessions hwait hfinish
    refine .inr ?_
    rw [hfinish]
    cases destroyer with
    | gc => rfl
    | destroySession user => simp
  · exact .inl rfl

theorem NoEmptyId.wake {m : WebSessionsManager} (h : m.NoEmptyId) (key : String) :
    (m.wake key).NoEmptyId := by
  unfold NoEmptyId
  rcases m.wake_sessions key with hsame | hfinish
  · rw [hsame]
    exact h
  · obtain ⟨hkey, hgone⟩ := SafeMap.finishDestroy_of_some hfinish
    rw [hgone]
    exact SafeMap.element_eq_none_set h hkey _

/-- No step makes a session with the empty id. -/
theorem NoEmptyId.step {m m' : WebSessionsManager} {op : ServerOp} {output : Option Answer}
    (h : m.NoEmptyId) (hstep : m.step config op = some (m', output)) : m'.NoEmptyId := by
  cases op with
  | request r e =>
      rw [step_request] at hstep
      obtain ⟨rfl, rfl⟩ := Prod.mk.inj (Option.some.inj hstep)
      exact ClientHandler.procHTTPClientContent_kept noEmptyId_kept
        (fun id hm => hm.destroySession id) h
  | gcVisit key now =>
      cases hstep
      exact h.gcVisit key now
  | wake key =>
      cases hstep
      exact h.wake key

/-- No state of a run has a session with the empty id. -/
theorem noEmptyId_before {maxInactiveSeconds maxSessionsPerUser : ℕ} {ops : List ServerOp}
    {t : Run.Transition WebSessionsManager ServerOp (Option Answer)}
    (ht : t ∈ Run.transitions (fun m op => m.step config op)
      (fresh maxInactiveSeconds maxSessionsPerUser) ops) : t.before.NoEmptyId := by
  have hall : Run.Guarded (fun m op => m.step config op) (fun _ _ => True)
      (fresh maxInactiveSeconds maxSessionsPerUser) ops := fun _ _ => trivial
  exact (hall.invariant NoEmptyId (fun m op m' o hm _ hstep => hm.step hstep)
    (noEmptyId_fresh _ _) t ht).1

end WebSessionsManager

end Mantids
