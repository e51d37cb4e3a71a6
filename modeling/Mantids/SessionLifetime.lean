/-
# How long a session lasts

A session that a login made should last until its owner logs out, or until it has been
without activity for too long.  The end of a request destroys the session of the request
whatever the request was, so this holds only of runs in which no other request gets that far.

* `Ends` — the logout of a session, or its end by the garbage collector;
* `LifetimeKept` — the steps that do not end a session early;
* `session_stays_openable` — in a run of such steps, a session that a login made can be opened
  until a step ends it.
-/
import Mantids.RequestFrame

namespace Mantids

namespace WebSessionsManager

/-! ## A session that can be opened -/

theorem openable_kept (id : String) : Kept (fun m => m.Openable id) := by
  refine kept_of_sessions (Q := fun s => (s.item? id).isSome)
    (fun s key f hs => ?_) (fun s key w _ hs => ?_) (fun s key hs => ?_) (fun s key hs => ?_)
  · rw [SafeMap.isSome_item?_modifyItem]
    exact hs
  · rw [SafeMap.item?_set]
    split
    · rfl
    · exact hs
  · rw [SafeMap.item?_openElement]
    exact hs
  · rw [SafeMap.item?_releaseElement]
    exact hs

/-- A session survives the destruction of another one. -/
theorem Openable.destroySession_of_ne {m : WebSessionsManager} {id key : String}
    (h : m.Openable id) (hne : id ≠ key) : (m.destroySession key).2.Openable id := by
  unfold Openable session?
  rcases m.destroySession_cases key with hnone | hthrow | hgone
  · rw [hnone]
    exact h
  · rw [hthrow, session?_visited]
    exact h
  · rw [hgone, SafeMap.item?_destroyElement_of_ne _ hne, session?_visited]
    exact h

theorem Openable.ne_empty {m : WebSessionsManager} {id : String} (h : m.Openable id)
    (hempty : m.NoEmptyId) : id ≠ "" := by
  rintro rfl
  unfold Openable session? SafeMap.item? at h
  rw [hempty] at h
  cases h

theorem Openable.element_ne_none {m : WebSessionsManager} {id : String} (h : m.Openable id) :
    m.sessions.element id ≠ none := by
  intro hnone
  unfold Openable session? SafeMap.item? at h
  rw [hnone] at h
  cases h

/-- A thread that goes on takes only a session away that nobody can open. -/
theorem Openable.wake {m : WebSessionsManager} {id : String} (h : m.Openable id) (key : String) :
    (m.wake key).Openable id := by
  unfold Openable session?
  rcases m.wake_sessions key with hsame | hfinish
  · rw [hsame]
    exact h
  · obtain ⟨helem, hgone⟩ := SafeMap.finishDestroy_of_some hfinish
    have hne : id ≠ key := by
      rintro rfl
      simp [Openable, session?, SafeMap.item?, helem] at h
    rw [hgone, SafeMap.item?_set, if_neg hne]
    exact h

end WebSessionsManager

namespace ClientHandler

variable {Regex : Type*} {config : WebParameters Regex} {r : Request} {e : Surroundings}

/-! ## The session that a request opens -/

theorem updateActivityOnImpersonatorSession_eq (h : ClientHandler) :
    ∃ m, (updateActivityOnImpersonatorSession e h).2 = h.withManager m := by
  unfold updateActivityOnImpersonatorSession
  split
  · exact ⟨_, rfl⟩
  · simp only
    split <;> exact ⟨_, rfl⟩

/-- All that the impersonator's session sees of a request is its activity. -/
theorem session?_updateActivityOnImpersonatorSession {h : ClientHandler}
    (hempty : h.sessionsManager.NoEmptyId) (k : String) :
    (updateActivityOnImpersonatorSession e h).2.sessionsManager.session? k
      = (h.sessionsManager.session? k).map
          (fun w => if k = h.impersonatorSessionID then w.updateLastActivity e.now else w) := by
  unfold updateActivityOnImpersonatorSession
  split
  · rename_i hid
    have hnone : h.sessionsManager.session? "" = none := by
      unfold WebSessionsManager.session? SafeMap.item?
      rw [hempty]
      rfl
    by_cases hk : k = h.impersonatorSessionID
    · rw [hk, hid, hnone]
      rfl
    · simp [hk]
  · have hrelease : ∀ m : WebSessionsManager,
        (m.releaseSession h.impersonatorSessionID).2.session? k = m.session? k :=
      fun m => SafeMap.item?_releaseElement m.sessions h.impersonatorSessionID k
    cases hitem : h.sessionsManager.session? h.impersonatorSessionID with
    | none =>
        have hsame : h.sessionsManager.session? k = (h.sessionsManager.session? k).map
            (fun w => if k = h.impersonatorSessionID then w.updateLastActivity e.now else w) := by
          by_cases hk : k = h.impersonatorSessionID
          · rw [hk, hitem]
            rfl
          · simp [hk]
        have hreleased := (hrelease h.sessionsManager).trans hsame
        rw [WebSessionsManager.openSession_of_none hitem]
        simp only
        split <;>
        · rename_i hres
          rw [hres] at hreleased
          exact hreleased
    | some w =>
        obtain ⟨maxAge, hopen⟩ := WebSessionsManager.openSession_of_some hitem e.now
        have hsame : WebSessionsManager.session?
            { h.sessionsManager with
              sessions := (h.sessionsManager.sessions.openElement h.impersonatorSessionID).2 } k
              = h.sessionsManager.session? k :=
          SafeMap.item?_openElement h.sessionsManager.sessions h.impersonatorSessionID k
        have hreleased := hrelease (WebSessionsManager.updateLastActivity
          { h.sessionsManager with
            sessions := (h.sessionsManager.sessions.openElement h.impersonatorSessionID).2 }
          h.impersonatorSessionID e.now)
        rw [WebSessionsManager.session?_updateLastActivity, hsame] at hreleased
        rw [hopen]
        simp only
        split <;>
        · rename_i hres
          rw [hres] at hreleased
          exact hreleased

theorem session?_of_released {h h' : ClientHandler} {ok : Bool} {m : WebSessionsManager}
    (hempty : m.NoEmptyId) (hh : h = m.newHandler.carrying r)
    (hres : updateActivityOnImpersonatorSession e h = (ok, h')) :
    h'.sessionID = r.sessionId ∧ h'.sessionsManager.session? r.sessionId = presented r e m := by
  subst hh
  have hsession := session?_updateActivityOnImpersonatorSession (e := e)
    (h := m.newHandler.carrying r) hempty r.sessionId
  obtain ⟨m', hm'⟩ := updateActivityOnImpersonatorSession_eq (e := e) (m.newHandler.carrying r)
  rw [hres] at hsession hm'
  simp only at hsession hm'
  refine ⟨by rw [hm']; rfl, hsession⟩

/-- The release of an impersonator's session that is dying, and that nobody has open,
throws. -/
theorem updateActivityOnImpersonatorSession_of_unread {h : ClientHandler}
    (hempty : h.sessionsManager.NoEmptyId)
    (helem : h.sessionsManager.sessions.element h.impersonatorSessionID = some ⟨none, 0⟩) :
    (updateActivityOnImpersonatorSession e h).1 = false := by
  unfold updateActivityOnImpersonatorSession
  rw [if_neg (hempty.ne_empty helem),
    WebSessionsManager.openSession_of_none (WebSessionsManager.session?_of_dying helem)]
  simp only [WebSessionsManager.releaseSession_of_unread helem]

/-! ## Logins and logouts of a request -/

theorem openCurrentSession_events (h : ClientHandler) :
    (openCurrentSession config r e h).2.events = h.events := by
  unfold openCurrentSession
  split
  · rfl
  · simp only
    split <;> rfl

theorem sessionCleanup_events (h : ClientHandler) :
    (sessionCleanup r e h).2.events = h.events := by
  obtain ⟨m, cookies, heq⟩ := sessionCleanup_eq (r := r) (e := e) h
  rw [heq]

theorem serve_events (h : ClientHandler) :
    (serve config r e h).2.events = (handleRoute config r e h (route config r)).2.events := by
  cases hres : handleRoute config r e h (route config r) with
  | mk code h' =>
      cases code with
      | none => rw [serve_of_threw (by rw [hres]), hres]
      | some code => rw [serve_of_returned hres, sessionCleanup_events]

/-- Only an accepted login logs a user in. -/
theorem acceptedLogin_of_loggedIn {h : ClientHandler} {id : String} (hbefore : h.events = [])
    (hlogin : .loggedIn id ∈ (handleRoute config r e h (route config r)).2.events) :
    ∃ token, acceptedLogin config r e h.currentWebSession = some token := by
  have hnil : .loggedIn id ∉ h.events := by
    rw [hbefore]
    exact List.not_mem_nil
  have hupd : .loggedIn id ∉ (updateActivityOnUsage e h).events := by
    unfold updateActivityOnUsage
    split <;> exact hnil
  have hinfo : .loggedIn id ∉ (handleAuthRetrieveInfoFunction h).2.events := by
    unfold handleAuthRetrieveInfoFunction
    split <;> exact hnil
  have hactivity : .loggedIn id ∉ (handleAuthUpdateLastActivityFunction r e h).2.events := by
    unfold handleAuthUpdateLastActivityFunction
    split <;> exact hnil
  have hlogout : .loggedIn id ∉ (handleAuthLogoutFunction r h).2.events := by
    unfold handleAuthLogoutFunction
    split
    · exact hnil
    · simp [hbefore]
  cases hroute : route config r with
  | auth authFunction =>
      rw [hroute] at hlogin
      change _ ∈ (handleAuthFunctions config r e h authFunction).2.events at hlogin
      unfold handleAuthFunctions at hlogin
      split_ifs at hlogin with hname
      · rcases handleAuthLoginFunction_cases (e := e) (hname ▸ hroute) h with hthrow | hcreate | hno
        · rw [hthrow.2.2] at hlogin
          exact absurd hlogin hnil
        · obtain ⟨-, token, htoken, -⟩ := hcreate
          exact ⟨token, htoken⟩
        · obtain ⟨-, -, code, hcode⟩ := hno
          rw [hcode] at hlogin
          exact absurd hlogin hnil
      · exact absurd hlogin hnil
      · exact absurd hlogin hinfo
      · exact absurd hlogin hactivity
      · exact absurd hlogin hlogout
      · exact absurd hlogin hnil
  | api apiVersion resource =>
      rw [hroute] at hlogin
      exact absurd hlogin hupd
  | regularFile =>
      rw [hroute] at hlogin
      exact absurd hlogin hupd
  | apiVersionOutOfRange =>
      rw [hroute] at hlogin
      exact absurd hlogin hnil
  | apiDisallowedOrigin =>
      rw [hroute] at hlogin
      exact absurd hlogin hnil
  | info =>
      rw [hroute] at hlogin
      exact absurd hlogin hnil
  | dynamic route dynUrlWithoutBase =>
      rw [hroute] at hlogin
      exact absurd hlogin hnil

/-- The session that a login made is there after the request: its release throws, and the
destruction that would follow is not reached. -/
theorem openable_of_loggedIn_serve {h : ClientHandler} {id : String} (hbefore : h.events = [])
    (hlogin : .loggedIn id ∈ (serve config r e h).2.events) :
    (serve config r e h).2.sessionsManager.Openable id := by
  rw [serve_events] at hlogin
  obtain ⟨token, htoken⟩ := acceptedLogin_of_loggedIn hbefore hlogin
  have hroute := handleRoute_of_acceptedLogin htoken
  rw [hroute] at hlogin
  rcases createLoginSession_cases (r := r) (e := e) h token with hthrow | hnew | hnone
  · rw [hthrow.2, hbefore] at hlogin
    exact absurd hlogin List.not_mem_nil
  · obtain ⟨-, id', w, h', -, -, hres, hid, hauth, hsess, hevents⟩ := hnew
    rw [hres] at hroute hlogin
    rw [hevents, hbefore, List.nil_append, List.mem_singleton, AuthEvent.loggedIn.injEq] at hlogin
    subst hlogin
    have hunread : h'.sessionsManager.sessions.element h'.sessionID = some ⟨some w, 0⟩ := by
      simp [hid, hsess]
    have hrel := WebSessionsManager.releaseSession_of_unread hunread
    rw [serve_of_returned hroute, sessionCleanup_of_invalidClose hauth hrel]
    unfold WebSessionsManager.Openable
    rw [WebSessionsManager.addCalls_session?, WebSessionsManager.session?, hsess,
      SafeMap.item?_set, if_pos rfl]
    rfl
  · obtain ⟨-, h', hres, -, -, -, -, hevents⟩ := hnone
    rw [hres] at hlogin
    rw [hevents, hbefore] at hlogin
    exact absurd hlogin List.not_mem_nil

/-- The events of a request that is admitted are those of its route. -/
theorem openable_of_loggedIn {m : WebSessionsManager} {id : String}
    (hlogin : .loggedIn id ∈ (procHTTPClientContent config r e m.newHandler).2.events) :
    (procHTTPClientContent config r e m.newHandler).2.sessionsManager.Openable id := by
  cases hadm : admitted config r with
  | false =>
      rw [(procHTTPClientContent_of_not_admitted (e := e) hadm m.newHandler).2] at hlogin
      exact absurd hlogin List.not_mem_nil
  | true =>
      obtain ⟨m', hm'⟩ := updateActivityOnImpersonatorSession_eq (e := e) (m.newHandler.carrying r)
      rw [procHTTPClientContent_of_admitted hadm] at hlogin ⊢
      cases hres : updateActivityOnImpersonatorSession e (m.newHandler.carrying r) with
      | mk ok h' =>
          rw [hres] at hlogin hm'
          simp only at hlogin hm'
          have hevents : (openCurrentSession config r e h').2.events = [] := by
            rw [openCurrentSession_events, hm']
            rfl
          cases ok with
          | false =>
              simp only [hm'] at hlogin
              exact absurd hlogin List.not_mem_nil
          | true =>
              simp only at hlogin ⊢
              split at hlogin
              · rw [hevents] at hlogin
                exact absurd hlogin List.not_mem_nil
              · rename_i hcode
                rw [if_neg hcode]
                exact openable_of_loggedIn_serve hevents hlogin

/-- An accepted logout of an open session leaves its event. -/
theorem logoutAccepted_of_acceptedLogout {h : ClientHandler} {w : WebSession}
    (hweb : h.currentWebSession = some w) (hlogout : acceptedLogout config r = true) :
    .logoutAccepted ∈ (serve config r e h).2.events := by
  simp only [acceptedLogout, Bool.and_eq_true, decide_eq_true_eq] at hlogout
  obtain ⟨⟨hroute, horigin⟩, hcsrf⟩ := hlogout
  rw [serve_events, hroute]
  simp [handleRoute, handleAuthFunctions, hweb, handleAuthLogoutFunction, horigin, hcsrf]

/-! ## Steps that end no session early -/

variable (config r e) in
/-- The condition on a request: one that gets as far as its session, and whose client is the
old one, is an accepted logout, or an accepted login of an impersonator, or its handler
throws.  An impersonator's session whose release throws ends the request before that. -/
def RequestKeepsLifetime (m : WebSessionsManager) : Prop :=
  admitted config r = true → m.sessions.element r.impersonatorSessionId ≠ some ⟨none, 0⟩ →
    ∀ w, presented r e m = some w → clientMatches config r w = true →
      acceptedLogout config r = true ∨ throws config r e (some w.authSession) = true ∨
        (acceptedLogin config r e (some w)).isSome

end ClientHandler

namespace WebSessionsManager

open ClientHandler

variable {Regex : Type*} (config : WebParameters Regex)

/-- The steps that end no session early: such a request, or a visit of the garbage collector
whose clock is not behind the session. -/
def LifetimeKept (m : WebSessionsManager) : ServerOp → Prop
  | .request r e => RequestKeepsLifetime config r e m
  | .gcVisit key now => ∀ w, m.session? key = some w → w.authSession.lastActivity ≤ now
  | .wake _ => True

/-- A session ends: a request with its id had its logout accepted, or the garbage collector
came when its last activity was too long ago. -/
def Ends (id : String) (t : Run.Transition WebSessionsManager ServerOp (Option Answer)) : Prop :=
  (∃ r e answer, t.input = .request r e ∧ r.sessionId = id ∧ t.output = some answer ∧
    .logoutAccepted ∈ answer.events) ∨
  (∃ now w, t.input = .gcVisit id now ∧ t.before.session? id = some w ∧
    t.before.maxInactiveSeconds < now - w.authSession.lastActivity)

variable {config}

/-- A session survives the serving of a request that goes on under another id, or whose
handler throws or logs a user in. -/
theorem Openable.serve {h : ClientHandler} {id : String} {r : Request} {e : Surroundings}
    (hopen : h.sessionsManager.Openable id) (hne : id ≠ "")
    (hcurrent : h.sessionID = id → throws config r e h.authSession = true ∨
      (acceptedLogin config r e h.currentWebSession).isSome) :
    (serve config r e h).2.sessionsManager.Openable id := by
  refine serve_kept (openable_kept id) hopen
    (fun {code h'} hroute {m} hm => Openable.destroySession_of_ne hm ?_)
  rintro rfl
  rcases handleRoute_cases config r e h with hthrow | hcreate | hreturn
  · rw [hroute] at hthrow
    exact absurd hthrow.2.2 (by simp)
  · obtain ⟨-, token, -, hres⟩ := hcreate
    rw [hroute] at hres
    rcases createLoginSession_cases (r := r) (e := e) h token with hnorandom | hnew | hnone
    · rw [hnorandom.2] at hres
      cases hres
    · obtain ⟨-, id', w, h'', -, helem, hres', hid', -⟩ := hnew
      rw [hres'] at hres
      cases hres
      rw [hid'] at hopen
      exact hopen.element_ne_none helem
    · obtain ⟨-, h'', hres', hid', -⟩ := hnone
      rw [hres'] at hres
      cases hres
      exact hne hid'
  · obtain ⟨hthrows, hnologin, code', h'', hres, hsame⟩ := hreturn
    rw [hroute] at hres
    cases hres
    rcases hcurrent hsame.sessionID.symm with hthrow | hlogin
    · rw [hthrows] at hthrow
      cases hthrow
    · rw [hnologin] at hlogin
      cases hlogin

/-- A session survives a request, unless it is the logout of the session. -/
theorem Openable.request {m : WebSessionsManager} {id : String} {r : Request} {e : Surroundings}
    (hempty : m.NoEmptyId) (h : m.Openable id) (hkeeps : RequestKeepsLifetime config r e m)
    (hno : r.sessionId = id →
      .logoutAccepted ∉ (procHTTPClientContent config r e m.newHandler).2.events) :
    (procHTTPClientContent config r e m.newHandler).2.sessionsManager.Openable id := by
  have hkept := openable_kept id
  cases hadm : admitted config r with
  | false =>
      rw [(procHTTPClientContent_of_not_admitted hadm m.newHandler).1]
      exact h
  | true =>
      have hupd := updateActivityOnImpersonatorSession_kept (e := e) hkept
        (h := m.newHandler.carrying r) h
      have hempty' := updateActivityOnImpersonatorSession_kept (e := e) noEmptyId_kept
        (h := m.newHandler.carrying r) hempty
      rw [procHTTPClientContent_of_admitted hadm] at hno ⊢
      cases hres : updateActivityOnImpersonatorSession e (m.newHandler.carrying r) with
      | mk ok h' =>
          rw [hres] at hupd hempty' hno
          cases ok with
          | false => exact hupd
          | true =>
              have hread : m.sessions.element r.impersonatorSessionId ≠ some ⟨none, 0⟩ := by
                intro helem
                have hfalse := updateActivityOnImpersonatorSession_of_unread (e := e)
                  (h := m.newHandler.carrying r) hempty helem
                rw [hres] at hfalse
                cases hfalse
              obtain ⟨hid, hsession⟩ := session?_of_released hempty rfl hres
              have hopen : (openCurrentSession config r e h').2.sessionsManager.Openable id :=
                openCurrentSession_kept hkept hupd
              have hne : id ≠ "" := Openable.ne_empty hupd hempty'
              simp only at hno ⊢
              split
              · exact hopen
              · rename_i hcode
                rw [if_neg hcode] at hno
                refine Openable.serve hopen hne ?_
                rw [← hid] at hsession
                cases hw : presented r e m with
                | none =>
                    rw [openCurrentSession_of_none (hsession.trans hw)]
                    exact fun hempty => absurd hempty.symm hne
                | some w =>
                    obtain ⟨maxAge, hstart⟩ :=
                      openCurrentSession_of_some config r e (hsession.trans hw)
                    rw [hstart] at hcode hno ⊢
                    cases hmatch : clientMatches config r w with
                    | false =>
                        rw [hmatch] at hcode
                        exact absurd (by simp) hcode
                    | true =>
                        rw [hmatch] at hno
                        rw [if_pos rfl] at hno ⊢
                        intro hcurrent
                        rcases hkeeps hadm hread w hw hmatch with hlogout | hthrow | hlogin
                        · exact absurd (logoutAccepted_of_acceptedLogout (w := w) rfl hlogout)
                            (hno (hid.symm.trans hcurrent))
                        · exact .inl hthrow
                        · exact .inr hlogin

/-- A session survives the garbage collector, unless it has been without activity for too
long. -/
theorem Openable.gcVisit {m : WebSessionsManager} {id key : String} {now : ℤ}
    (h : m.Openable id)
    (hclock : ∀ w, m.session? key = some w → w.authSession.lastActivity ≤ now)
    (hno : ∀ w, key = id → m.session? id = some w →
      ¬ m.maxInactiveSeconds < now - w.authSession.lastActivity) :
    (m.gcVisit key now).Openable id := by
  unfold Openable session?
  rcases m.gcVisit_cases key now with hnone | ⟨w, hitem, honly | ⟨hexpired, hgone⟩⟩
  · rw [hnone]
    exact h
  · rw [honly, session?_visited]
    exact h
  · rw [hgone]
    by_cases hkey : id = key
    · subst hkey
      have hle := hclock w hitem
      have hage := hno w rfl hitem
      have hmod := Nat.mod_le (now - w.authSession.lastActivity).toNat (2 ^ 32)
      unfold Session.isLastActivityExpired at hexpired
      rw [if_neg (by omega), decide_eq_true_eq] at hexpired
      omega
    · rw [SafeMap.item?_destroyElement_of_ne _ hkey, session?_visited]
      exact h

/-- A session survives every step that does not end it. -/
theorem Openable.step {m m' : WebSessionsManager} {op : ServerOp} {output : Option Answer}
    {id : String} (hempty : m.NoEmptyId) (h : m.Openable id) (hkeeps : LifetimeKept config m op)
    (hstep : m.step config op = some (m', output)) (hno : ¬ Ends id ⟨m, op, output, m'⟩) :
    m'.Openable id := by
  cases op with
  | request r e =>
      rw [step_request] at hstep
      obtain ⟨rfl, rfl⟩ := Prod.mk.inj (Option.some.inj hstep)
      refine Openable.request hempty h hkeeps (fun hid hlogout => hno (.inl ?_))
      exact ⟨r, e, _, rfl, hid, rfl, hlogout⟩
  | gcVisit key now =>
      cases hstep
      refine Openable.gcVisit h hkeeps (fun w hkey hitem hage => hno (.inr ?_))
      exact ⟨now, w, by rw [hkey], hitem, hage⟩
  | wake key =>
      cases hstep
      exact Openable.wake h key

/-- **A session lasts until it is ended.**  In a run of steps that end no session early, a
session that a login made can be opened as long as no later step ends it. -/
theorem session_stays_openable (config : WebParameters Regex)
    (maxInactiveSeconds maxSessionsPerUser : ℕ) (ops : List ServerOp)
    (hguard : Run.Guarded (fun m op => m.step config op) (LifetimeKept config)
      (fresh maxInactiveSeconds maxSessionsPerUser) ops)
    {pre mid post : List (Run.Transition WebSessionsManager ServerOp (Option Answer))}
    {t : Run.Transition WebSessionsManager ServerOp (Option Answer)}
    (hrun : Run.transitions (fun m op => m.step config op)
      (fresh maxInactiveSeconds maxSessionsPerUser) ops = pre ++ t :: (mid ++ post))
    {id : String} {answer : Answer} (houtput : t.output = some answer)
    (hlogin : .loggedIn id ∈ answer.events) (hmid : ∀ u ∈ mid, ¬ Ends id u) :
    ((t :: mid).getLast (List.cons_ne_nil t mid)).after.Openable id := by
  have hmem : ∀ u ∈ t :: mid, u ∈ Run.transitions (fun m op => m.step config op)
      (fresh maxInactiveSeconds maxSessionsPerUser) ops := by
    intro u hu
    rw [hrun]
    rcases List.mem_cons.mp hu with rfl | hu
    · simp
    · simp [hu]
  refine Run.stays_unless hrun (fun m => m.Openable id) ?_ (fun u hu hopen => ?_)
  · have hstep := Run.step_of_mem_transitions (hmem t List.mem_cons_self)
    rw [houtput] at hstep
    cases hop : t.input with
    | request r e =>
        rw [hop, step_request] at hstep
        obtain ⟨hafter, hanswer⟩ := Prod.mk.inj (Option.some.inj hstep)
        rw [← Option.some.inj hanswer] at hlogin
        rw [← hafter]
        exact openable_of_loggedIn hlogin
    | gcVisit key now =>
        simp [hop, WebSessionsManager.step] at hstep
    | wake key =>
        simp [hop, WebSessionsManager.step] at hstep
  · have hin := hmem u (List.mem_cons_of_mem t hu)
    exact Openable.step (noEmptyId_before hin) hopen (hguard u hin)
      (Run.step_of_mem_transitions hin) (hmid u hu)

/-- A request without the session leaves it in place. -/
theorem session_stays_openable_info :
    ∃ t u, Run.transitions (fun m op => m.step sampleWeb op) (fresh 900 100)
        [.request sampleLogin sampleSurroundings, .request sampleInfo sampleSurroundings]
        = [t, u] ∧ u.after.Openable "AAAAAAAAAAAA:BBBBBBBBBBBB" := by
  refine ⟨_, _, rfl, ?_⟩
  refine session_stays_openable sampleWeb 900 100
    [.request sampleLogin sampleSurroundings, .request sampleInfo sampleSurroundings] ?_
    (show _ = [] ++ _ :: ([_] ++ []) from rfl) rfl (by decide +kernel) ?_
  · intro v hv
    rcases List.mem_cons.mp hv with rfl | hv
    · intro _ _ w hw
      cases hw
    · rcases List.mem_singleton.mp hv with rfl
      intro _ _ w hw
      cases hw
  · intro v hv
    rcases List.mem_singleton.mp hv with rfl
    rintro (⟨r, e, answer, hinput, hid, -⟩ | ⟨now, w, hinput, -⟩)
    · cases hinput
      revert hid
      decide +kernel
    · cases hinput

/-- A request in the session, for no more than some information, destroys it. -/
theorem info_destroys_session :
    ∃ t u, Run.transitions (fun m op => m.step sampleWeb op) (fresh 900 100)
        [.request sampleLogin sampleSurroundings, .request sampleSessionInfo sampleSurroundings]
        = [t, u] ∧
      (∃ answer, t.output = some answer ∧
        .loggedIn "AAAAAAAAAAAA:BBBBBBBBBBBB" ∈ answer.events) ∧
      t.after.Openable "AAAAAAAAAAAA:BBBBBBBBBBBB" ∧
      ¬ Ends "AAAAAAAAAAAA:BBBBBBBBBBBB" u ∧ ¬ u.after.Openable "AAAAAAAAAAAA:BBBBBBBBBBBB" := by
  refine ⟨_, _, rfl, ⟨_, rfl, by decide +kernel⟩, by decide +kernel, ?_, by decide +kernel⟩
  rintro (⟨r, e, answer, -, -, houtput, hlogout⟩ | ⟨now, w, hinput, -⟩)
  · cases houtput
    revert hlogout
    decide +kernel
  · cases hinput

end WebSessionsManager

end Mantids
