/-
# Balanced session references

Every session that a request opens should be released again before the request ends: a
session that is released once too often makes `releaseElement` throw, and one that is never
released makes its destruction wait for ever.

* `Balanced` — the calls of a request release each session as often as they opened it, and
  none of them threw;
* `ReferencesKept` — the requests that are balanced, read off the request and the sessions
  before it;
* `balanced_iff` — they are exactly those.

Unbalanced are: a session whose client changed its address or browser, a handler that throws
while a session is open, a login that succeeds, an impersonator's session that is being
destroyed, and a session whose 2^32 readers overflow the count.
-/
import Mantids.RequestFrame

namespace Mantids

/-! ## Calls -/

/-- Each session was released as often as it was opened, and no release threw. -/
def Balanced (calls : List (Call String)) : Prop :=
  (∀ id, calls.count (.opened id) = calls.count (.released id)) ∧ ∀ id, .invalidClose id ∉ calls

theorem balanced_nil : Balanced [] := ⟨fun _ => rfl, fun _ => List.not_mem_nil⟩

/-- A reader that releases what it opened does not matter. -/
theorem balanced_append_touches (m : WebSessionsManager) (id : String)
    (calls : List (Call String)) : Balanced (calls ++ m.touches id) ↔ Balanced calls := by
  unfold WebSessionsManager.touches
  split
  · simp [Balanced, List.count_append, List.count_cons]
  · simp

theorem balanced_opened_released {calls : List (Call String)} (id : String) :
    Balanced (calls ++ [.opened id] ++ [.released id]) ↔ Balanced calls := by
  simp [Balanced, List.count_append, List.count_cons]

/-- An opened session that is not released again. -/
theorem not_balanced_opened {calls : List (Call String)} (h : Balanced calls) (id : String) :
    ¬ Balanced (calls ++ [.opened id]) := by
  intro hbal
  have hcount := hbal.1 id
  have hbefore := h.1 id
  simp [List.count_append] at hcount
  omega

theorem not_balanced_invalidClose (calls : List (Call String)) (id : String) :
    ¬ Balanced (calls ++ [.invalidClose id]) := fun hbal => hbal.2 id (by simp)

/-- A reader whose count overflows. -/
theorem not_balanced_overflow (calls : List (Call String)) (id : String) :
    ¬ Balanced (calls ++ [.opened id, .invalidClose id]) := fun hbal => hbal.2 id (by simp)

/-! ## The end of a request -/

namespace ClientHandler

variable {Regex : Type*} {config : WebParameters Regex} {r : Request} {e : Surroundings}

/-- The calls that a handler has recorded. -/
def calls (h : ClientHandler) : List (Call String) := h.sessionsManager.sessions.calls

theorem findParent_of_hasRoom {h : ClientHandler}
    (hroom : h.sessionsManager.hasRoom h.impersonatorSessionID = true) :
    ∃ parent, findParent e h = (some parent, h.withManager
      (h.sessionsManager.addCalls (h.sessionsManager.touches h.impersonatorSessionID))) := by
  unfold findParent
  cases hitem : h.sessionsManager.session? h.impersonatorSessionID with
  | none =>
      rw [WebSessionsManager.openSession_of_none hitem, WebSessionsManager.touches_of_none hitem]
      exact ⟨none, by simp [withManager, WebSessionsManager.addCalls]⟩
  | some w =>
      obtain ⟨maxAge, hopen⟩ := WebSessionsManager.openSession_of_some hitem e.now
      rw [hopen]
      refine ⟨some (w, maxAge), ?_⟩
      simp [WebSessionsManager.releaseSession_openSession hitem hroom, WebSessionsManager.touches,
        hitem]

/-- If the readers of the impersonator's session overflow, there is no logout. -/
theorem findParent_of_full {h : ClientHandler}
    (hfull : h.sessionsManager.hasRoom h.impersonatorSessionID = false) :
    (∃ parent, findParent e h = (some parent, h)) ∨
      ∃ h', findParent e h = (none, h') ∧ h'.calls = h.calls ++
        [.opened h.impersonatorSessionID, .invalidClose h.impersonatorSessionID] := by
  unfold findParent
  cases hitem : h.sessionsManager.session? h.impersonatorSessionID with
  | none =>
      rw [WebSessionsManager.openSession_of_none hitem]
      exact .inl ⟨none, rfl⟩
  | some w =>
      obtain ⟨maxAge, hopen⟩ := WebSessionsManager.openSession_of_some hitem e.now
      obtain ⟨hresult, hcalls⟩ := SafeMap.releaseElement_openElement_of_full hitem
        (WebSessionsManager.eq_zero_of_hasRoom hfull)
      rw [hopen]
      simp only [WebSessionsManager.releaseSession, hresult]
      exact .inr ⟨_, rfl, hcalls⟩

theorem destroyCurrentSession_calls {h : ClientHandler}
    (hroom : h.sessionID ≠ "" → h.sessionsManager.hasRoom h.sessionID = true) :
    (destroyCurrentSession h).2.calls
      = h.calls ++ (if h.sessionID = "" then [] else h.sessionsManager.touches h.sessionID) := by
  unfold destroyCurrentSession
  split
  · simp
  · rename_i hne
    have hcalls : (h.sessionsManager.destroySession h.sessionID).2.sessions.calls
        = h.calls ++ h.sessionsManager.touches h.sessionID := by
      cases hitem : h.sessionsManager.session? h.sessionID with
      | none =>
          rw [WebSessionsManager.destroySession_of_none hitem,
            WebSessionsManager.touches_of_none hitem, List.append_nil]
          rfl
      | some w =>
          rw [WebSessionsManager.destroySession_of_some hitem (hroom hne),
            SafeMap.calls_destroyElement]
          simp [WebSessionsManager.touches, hitem, calls]
    split <;>
    · rename_i hres
      rw [hres] at hcalls
      exact hcalls

/-- A logout opens and releases the impersonator's session and the one it destroys. -/
theorem sessionLogout_calls (hvalid : validateSessionIDFormat r.sessionId = true)
    {h : ClientHandler} (hparent : h.sessionsManager.hasRoom h.impersonatorSessionID = true)
    (hroom : h.sessionID ≠ "" → h.sessionsManager.hasRoom h.sessionID = true) :
    (sessionLogout r e h).2.calls
      = h.calls ++ h.sessionsManager.touches h.impersonatorSessionID
          ++ (if h.sessionID = "" then [] else h.sessionsManager.touches h.sessionID) := by
  obtain ⟨parent, hfind⟩ := findParent_of_hasRoom (e := e) hparent
  unfold sessionLogout
  rw [hvalid, hfind]
  set h' := h.withManager
    (h.sessionsManager.addCalls (h.sessionsManager.touches h.impersonatorSessionID)) with hh'
  obtain ⟨cookies, hc⟩ := h'.logoutCookies_eq parent
  have hdestroy : ∀ cookies', (destroyCurrentSession { h' with cookies := cookies' }).2.calls
        = h.calls ++ h.sessionsManager.touches h.impersonatorSessionID
          ++ (if h.sessionID = "" then [] else h.sessionsManager.touches h.sessionID) := by
    intro cookies'
    exact destroyCurrentSession_calls (h := { h' with cookies := cookies' }) hroom
  change (destroyCurrentSession
    (if h'.destroySession then h'.logoutCookies parent else h')).2.calls = _
  split
  · rw [hc]
    exact hdestroy cookies
  · exact hdestroy h'.cookies

/-- A logout without a session repairs nothing. -/
theorem not_balanced_sessionLogout_of_empty {h : ClientHandler} (hid : h.sessionID = "")
    (hbal : ¬ Balanced h.calls) : ¬ Balanced (sessionLogout r e h).2.calls := by
  have hend : ∀ (h' : ClientHandler) (parent : Option (WebSession × ℕ)), h'.sessionID = "" →
      (destroyCurrentSession
        (if h'.destroySession then h'.logoutCookies parent else h')).2.calls = h'.calls := by
    intro h' parent hid'
    obtain ⟨cookies, hc⟩ := h'.logoutCookies_eq parent
    rw [hc]
    split <;> simp [destroyCurrentSession, hid', calls]
  unfold sessionLogout
  split
  · exact hbal
  · cases hroom : h.sessionsManager.hasRoom h.impersonatorSessionID with
    | true =>
        obtain ⟨parent, hfind⟩ := findParent_of_hasRoom (e := e) hroom
        set h' := h.withManager
          (h.sessionsManager.addCalls (h.sessionsManager.touches h.impersonatorSessionID))
        rw [hfind]
        simp only
        rw [hend h' parent hid]
        change ¬ Balanced (h.calls ++ _)
        rw [balanced_append_touches]
        exact hbal
    | false =>
        rcases findParent_of_full (e := e) hroom with ⟨parent, hfind⟩ | ⟨h', hfind, hcalls⟩
        · rw [hfind]
          simp only
          rw [hend _ _ hid]
          exact hbal
        · rw [hfind]
          simp only
          rw [hcalls]
          exact not_balanced_overflow _ _

/-- With a session, the one under the current id is released, and then comes the logout. -/
theorem sessionCleanup_eq_of_released {h : ClientHandler} {result : SafeMap.Release}
    {m : WebSessionsManager} (hauth : h.authSession.isSome)
    (hrel : h.sessionsManager.releaseSession h.sessionID = (result, m))
    (hresult : result ≠ .invalidClose) :
    ∃ cookies, sessionCleanup r e h
      = sessionLogout r e { h with sessionsManager := m, cookies := cookies } := by
  obtain ⟨cookies, hcleanup⟩ := sessionCleanup_of_some (r := r) (e := e) hauth hrel
  rw [if_neg hresult] at hcleanup
  exact ⟨cookies, hcleanup⟩

/-! ## A request after its beginning -/

variable (config r e) in
theorem handleRoute_calls (h : ClientHandler) :
    (handleRoute config r e h (route config r)).2.calls = h.calls := by
  have hkept : KeptByRoutes (fun m => m.sessions.calls = h.calls) :=
    keptByRoutes_of_sessions (Q := fun s => s.calls = h.calls)
      (fun s id f hs => by simpa using hs) (fun s id w _ hs => hs)
  exact handleRoute_kept hkept rfl _

variable (config r e) in
theorem handleRoute_readers (h : ClientHandler) (id : String) :
    (handleRoute config r e h (route config r)).2.sessionsManager.sessions.readers id
      = h.sessionsManager.sessions.readers id := by
  have hkept : KeptByRoutes
      (fun m => m.sessions.readers id = h.sessionsManager.sessions.readers id) := by
    refine keptByRoutes_of_sessions
      (Q := fun s => s.readers id = h.sessionsManager.sessions.readers id)
      (fun s key f hs => (s.readers_modifyItem key f id).trans hs) (fun s key w hnone hs => ?_)
    rw [SafeMap.readers_set]
    split
    · rename_i hkey
      rw [← hs, hkey]
      simp [SafeMap.readers, hnone]
    · exact hs
  exact handleRoute_kept hkept rfl _

variable (config r e) in
theorem handleRoute_openable {h : ClientHandler} {id : String}
    (hin : (h.sessionsManager.session? id).isSome = true) :
    ((handleRoute config r e h (route config r)).2.sessionsManager.session? id).isSome = true := by
  have hkept : KeptByRoutes (fun m => (m.session? id).isSome = true) := by
    refine keptByRoutes_of_sessions (Q := fun s => (s.item? id).isSome = true)
      (fun s key f hs => (s.isSome_item?_modifyItem key id f).trans hs) (fun s key w hnone hs => ?_)
    rw [SafeMap.item?_set]
    split
    · rfl
    · exact hs
  exact handleRoute_kept hkept hin _

/-- A login that makes a session ends in the release of a session nobody has opened. -/
theorem serve_calls_of_created {h : ClientHandler} {token : Token}
    (hlogin : acceptedLogin config r e h.currentWebSession = some token)
    (hcreates : h.sessionsManager.creates e.random token.getSubject = true) :
    ∃ id, (serve config r e h).2.calls = h.calls ++ [.invalidClose id] := by
  have hroute := handleRoute_of_acceptedLogin hlogin
  rcases createLoginSession_cases (r := r) (e := e) h token with hthrow | hnew | hnone
  · rw [hthrow.1] at hcreates
    cases hcreates
  · obtain ⟨-, id, w, h', -, -, hres, hid, hauth, hsess, -⟩ := hnew
    rw [hres] at hroute
    refine ⟨id, ?_⟩
    have hunread : h'.sessionsManager.sessions.element h'.sessionID = some ⟨some w, 0⟩ := by
      simp [hid, hsess]
    have hrel := WebSessionsManager.releaseSession_of_unread hunread
    rw [serve_of_returned hroute, calls, sessionCleanup_of_invalidClose hauth hrel]
    simp [hsess, hid, calls, SafeMap.set]
  · rw [hnone.1] at hcreates
    cases hcreates

/-- Without a session, only a login that makes one is unbalanced. -/
theorem balanced_serve_of_none {h : ClientHandler} (hweb : h.currentWebSession = none)
    (hauth : h.authSession = none) (hid : h.sessionID = "")
    (hvalid : validateSessionIDFormat r.sessionId = true)
    (hparent : h.sessionsManager.hasRoom h.impersonatorSessionID = true) (hbal : Balanced h.calls) :
    Balanced (serve config r e h).2.calls ↔
      ∀ token, acceptedLogin config r e none = some token →
        h.sessionsManager.creates e.random token.getSubject = false := by
  have hlogout : ∀ h' : ClientHandler, h'.authSession = none → h'.sessionID = "" →
      h'.sessionsManager.hasRoom h'.impersonatorSessionID = true →
      h'.calls = h.calls → Balanced (sessionCleanup r e h').2.calls := by
    intro h' hauth' hid' hparent' hcalls
    rw [sessionCleanup_of_none hauth', sessionLogout_calls hvalid hparent' (absurd hid'),
      if_pos hid', List.append_nil, balanced_append_touches, hcalls]
    exact hbal
  have hcalls := handleRoute_calls config r e h
  have hreaders := handleRoute_readers config r e h h.impersonatorSessionID
  rcases handleRoute_cases config r e h with hthrow | hcreate | hreturn
  · obtain ⟨-, hnologin, hnone⟩ := hthrow
    rw [hweb] at hnologin
    rw [serve_of_threw hnone, hcalls]
    exact iff_of_true hbal (fun token htoken => by simp [hnologin] at htoken)
  · obtain ⟨-, token, hlogin, hres⟩ := hcreate
    have hall : (∀ token', acceptedLogin config r e none = some token' →
        h.sessionsManager.creates e.random token'.getSubject = false) ↔
        h.sessionsManager.creates e.random token.getSubject = false := by
      rw [← hweb]
      simp [hlogin]
    rw [hall]
    rcases createLoginSession_cases (r := r) (e := e) h token with hnorandom | hnew | hnone
    · rw [hnorandom.2] at hres
      rw [serve_of_threw (by rw [hres]), hcalls]
      exact iff_of_true hbal (by rw [hnorandom.1]; rfl)
    · obtain ⟨id, hserve⟩ := serve_calls_of_created hlogin hnew.1
      rw [hserve, hnew.1]
      exact iff_of_false (not_balanced_invalidClose _ _) (by simp)
    · obtain ⟨hcreates, h', hres', hid', hauth', himp, hsess, -⟩ := hnone
      rw [hres'] at hres
      rw [serve_of_returned hres]
      refine iff_of_true (hlogout h' (hauth'.trans hauth) hid' ?_ ?_) hcreates
      · rw [himp, WebSessionsManager.hasRoom_congr (m := h.sessionsManager) (by rw [hsess])]
        exact hparent
      · simp [calls, hsess]
  · obtain ⟨-, hnologin, code, h', hres, hsame⟩ := hreturn
    rw [hweb] at hnologin
    rw [hres] at hcalls hreaders
    rw [serve_of_returned hres]
    refine iff_of_true (hlogout h' (hsame.authSession.trans hauth) (hsame.sessionID.trans hid) ?_
      hcalls) (fun token htoken => by simp [hnologin] at htoken)
    rw [hsame.impersonatorSessionID, WebSessionsManager.hasRoom_congr hreaders]
    exact hparent

/-- The end of a request whose session is open with `readers` readers more than this one. -/
theorem balanced_sessionCleanup {h : ClientHandler} {readers : UInt32}
    {before : List (Call String)} (hauth : h.authSession.isSome)
    (hvalid : validateSessionIDFormat r.sessionId = true)
    (hin : (h.sessionsManager.session? h.sessionID).isSome = true)
    (hreaders : h.sessionsManager.sessions.readers h.sessionID = readers + 1)
    (hparent : h.impersonatorSessionID ≠ h.sessionID →
      h.sessionsManager.hasRoom h.impersonatorSessionID = true)
    (hopened : h.calls = before ++ [.opened h.sessionID]) (hbal : Balanced before) :
    Balanced (sessionCleanup r e h).2.calls ↔ readers + 1 ≠ 0 := by
  by_cases hfull : readers + 1 = 0
  · refine iff_of_false ?_ (not_not.mpr hfull)
    obtain ⟨w, hw⟩ := Option.isSome_iff_exists.mp hin
    obtain ⟨numReaders, helem⟩ := SafeMap.element_of_item? hw
    have hunread : h.sessionsManager.sessions.element h.sessionID = some ⟨some w, 0⟩ := by
      rw [SafeMap.readers_of_element helem, hfull] at hreaders
      change numReaders = 0 at hreaders
      rw [helem, hreaders]
    have hrel := WebSessionsManager.releaseSession_of_unread hunread
    rw [calls, sessionCleanup_of_invalidClose hauth hrel, WebSessionsManager.addCalls_calls]
    exact not_balanced_invalidClose _ _
  · refine iff_of_true ?_ hfull
    obtain ⟨item, -, hrelease⟩ := SafeMap.releaseElement_of_readers (hreaders ▸ hfull)
    have hresult := congrArg Prod.fst hrelease
    have hrel : h.sessionsManager.releaseSession h.sessionID
        = (.released, (h.sessionsManager.releaseSession h.sessionID).2) :=
      Prod.ext hresult rfl
    set m := (h.sessionsManager.releaseSession h.sessionID).2 with hm
    have hsess : m.sessions = (h.sessionsManager.sessions.set h.sessionID
        (some ⟨item, readers⟩)).record (.released h.sessionID) := by
      change (h.sessionsManager.sessions.releaseElement h.sessionID).2 = _
      rw [hrelease, hreaders, ReaderCount.add_sub_one]
    have hroom : m.hasRoom h.sessionID = true := by
      unfold WebSessionsManager.hasRoom
      rw [hsess]
      simp [hfull]
    have hroom' : m.hasRoom h.impersonatorSessionID = true := by
      by_cases hsame : h.impersonatorSessionID = h.sessionID
      · rw [hsame]
        exact hroom
      · rw [WebSessionsManager.hasRoom_congr (m := h.sessionsManager)]
        · exact hparent hsame
        · rw [hsess]
          simp [hsame]
    have hbalanced : Balanced m.sessions.calls := by
      rw [hsess]
      change Balanced (h.calls ++ [.released h.sessionID])
      rw [hopened, balanced_opened_released]
      exact hbal
    obtain ⟨cookies, hcleanup⟩ := sessionCleanup_eq_of_released (r := r) (e := e) hauth hrel
      (by decide)
    rw [hcleanup, sessionLogout_calls (h := { h with sessionsManager := m, cookies := cookies })
      hvalid hroom' fun _ => hroom]
    split
    · rw [List.append_nil, balanced_append_touches]
      exact hbalanced
    · rw [balanced_append_touches, balanced_append_touches]
      exact hbalanced

/-- With a session open, the handler has to return, it must not be a login, and the readers of the
session must not overflow. -/
theorem balanced_serve_of_some {h : ClientHandler} {w : WebSession} {readers : UInt32}
    {before : List (Call String)} (hweb : h.currentWebSession = some w)
    (hauth : h.authSession = some w.authSession)
    (hin : (h.sessionsManager.session? h.sessionID).isSome = true)
    (hreaders : h.sessionsManager.sessions.readers h.sessionID = readers + 1)
    (hparent : h.impersonatorSessionID ≠ h.sessionID →
      h.sessionsManager.hasRoom h.impersonatorSessionID = true)
    (hempty : h.sessionsManager.sessions.element "" = none)
    (hvalid : validateSessionIDFormat r.sessionId = true)
    (hopened : h.calls = before ++ [.opened h.sessionID]) (hbal : Balanced before) :
    Balanced (serve config r e h).2.calls ↔
      readers + 1 ≠ 0 ∧ throws config r e (some w.authSession) = false ∧
        acceptedLogin config r e (some w) = none := by
  have hcalls := handleRoute_calls config r e h
  have hleak : ¬ Balanced h.calls := by
    rw [hopened]
    exact not_balanced_opened hbal _
  rcases handleRoute_cases config r e h with hthrow | hcreate | hreturn
  · obtain ⟨hthrows, -, hnone⟩ := hthrow
    rw [hauth] at hthrows
    rw [serve_of_threw hnone, hcalls, hthrows]
    exact iff_of_false hleak (by simp)
  · obtain ⟨-, token, hlogin, hres⟩ := hcreate
    refine iff_of_false ?_ (by rw [← hweb, hlogin]; simp)
    rcases createLoginSession_cases (r := r) (e := e) h token with hnorandom | hnew | hnone
    · rw [hnorandom.2] at hres
      rw [serve_of_threw (by rw [hres]), hcalls]
      exact hleak
    · obtain ⟨id, hserve⟩ := serve_calls_of_created hlogin hnew.1
      rw [hserve]
      exact not_balanced_invalidClose _ _
    · obtain ⟨-, h', hres', hid', hauth', -, hsess, -⟩ := hnone
      rw [hres'] at hres
      -- the id is gone: the release finds nothing, and the old session stays open
      have hrel : h'.sessionsManager.releaseSession h'.sessionID
          = (.notFound, h'.sessionsManager) := by
        unfold WebSessionsManager.releaseSession
        rw [hid', hsess, SafeMap.releaseElement_of_element_none hempty]
        rw [← hsess]
      obtain ⟨cookies, hcleanup⟩ := sessionCleanup_eq_of_released (r := r) (e := e)
        (by rw [hauth', hauth]; rfl) hrel (by decide)
      rw [serve_of_returned hres, hcleanup]
      refine not_balanced_sessionLogout_of_empty (h := { h' with cookies := cookies }) hid' ?_
      simpa [calls, hsess] using hleak
  · obtain ⟨hthrows, hnologin, code, h', hres, hsame⟩ := hreturn
    have hin' := handleRoute_openable config r e hin
    have hreaders' := handleRoute_readers config r e h
    rw [hres] at hcalls hin'
    simp only [hres] at hreaders'
    rw [hauth] at hthrows
    rw [hweb] at hnologin
    rw [serve_of_returned hres,
      @balanced_sessionCleanup _ _ _ readers before (by rw [hsame.authSession, hauth]; rfl) hvalid]
    · exact ⟨fun hroom => ⟨hroom, hthrows, hnologin⟩, fun hall => hall.1⟩
    · rw [hsame.sessionID]
      exact hin'
    · rw [hsame.sessionID, hreaders']
      exact hreaders
    · rw [hsame.impersonatorSessionID, hsame.sessionID,
        WebSessionsManager.hasRoom_congr (hreaders' _)]
      exact hparent
    · rw [hsame.sessionID]
      exact hcalls.trans hopened
    · exact hbal

/-! ## The requests that are balanced -/

variable (config r e) in
/-- The condition for a balanced request.  One that is admitted must not name a dying session
as its impersonator's, nor one whose readers overflow.  If the session it names is there, its
readers must not overflow either, the client must be the old one, the handler must return, and
it must not be an accepted login.  If it is not there, a login must not make one. -/
def ReferencesKept (m : WebSessionsManager) : Prop :=
  admitted config r = true →
    m.isDying r.impersonatorSessionId = false ∧ m.hasRoom r.impersonatorSessionId = true ∧
    match presented r e m with
    | some w =>
      m.hasRoom r.sessionId = true ∧ clientMatches config r w = true ∧
        throws config r e (some w.authSession) = false ∧ acceptedLogin config r e (some w) = none
    | none =>
      ∀ token, acceptedLogin config r e none = some token →
        m.creates e.random token.getSubject = false

/-- More releases than openings of a session that nobody can open any more. -/
def Unmatched (id : String) (s : SafeMap String WebSession UInt32) : Prop :=
  (∃ numReaders, s.element id = some ⟨none, numReaders⟩) ∧
    s.calls.count (.opened id) < s.calls.count (.released id)

theorem Unmatched.openElement {id : String} {s : SafeMap String WebSession UInt32}
    (h : Unmatched id s) (key : String) : Unmatched id (s.openElement key).2 := by
  obtain ⟨⟨numReaders, helem⟩, hcount⟩ := h
  by_cases hkey : id = key
  · subst hkey
    rw [SafeMap.openElement_of_none (by simp [SafeMap.item?, helem])]
    exact ⟨⟨numReaders, helem⟩, hcount⟩
  · unfold SafeMap.openElement
    split
    · refine ⟨⟨numReaders, ?_⟩, ?_⟩
      · simp [SafeMap.record, SafeMap.set, Function.update_of_ne hkey, helem]
      · simpa [SafeMap.record, SafeMap.set, List.count_append, Ne.symm hkey] using hcount
    · exact ⟨⟨numReaders, helem⟩, hcount⟩

theorem Unmatched.releaseElement {id : String} {s : SafeMap String WebSession UInt32}
    (h : Unmatched id s) (key : String) : Unmatched id (s.releaseElement key).2 := by
  obtain ⟨⟨numReaders, helem⟩, hcount⟩ := h
  by_cases hkey : id = key
  · subst hkey
    by_cases hzero : numReaders = 0
    · refine ⟨⟨numReaders, ?_⟩, ?_⟩
      · simp [SafeMap.releaseElement, helem, SafeMap.record, hzero]
      · simpa [SafeMap.releaseElement, helem, SafeMap.record, hzero, List.count_append] using hcount
    · refine ⟨⟨numReaders - 1, ?_⟩, ?_⟩
      · simp [SafeMap.releaseElement, helem, SafeMap.record, SafeMap.set, hzero]
      · simp [SafeMap.releaseElement, helem, SafeMap.record, SafeMap.set, List.count_append, hzero]
        omega
  · unfold SafeMap.releaseElement
    split
    · exact ⟨⟨numReaders, helem⟩, hcount⟩
    · split_ifs
      · refine ⟨⟨numReaders, helem⟩, ?_⟩
        simpa [SafeMap.record, List.count_append] using hcount
      · refine ⟨⟨numReaders, ?_⟩, ?_⟩
        · simp [SafeMap.record, SafeMap.set, Function.update_of_ne hkey, helem]
        · simpa [SafeMap.record, SafeMap.set, List.count_append, Ne.symm hkey] using hcount

theorem Unmatched.set {id : String} {s : SafeMap String WebSession UInt32} (h : Unmatched id s)
    {key : String} (hkey : id ≠ key) (entry : Option (MapElement WebSession UInt32)) :
    Unmatched id (s.set key entry) := by
  obtain ⟨⟨numReaders, helem⟩, hcount⟩ := h
  exact ⟨⟨numReaders, by simp [hkey, helem]⟩, hcount⟩

theorem Unmatched.ne_of_item? {id key : String} {s : SafeMap String WebSession UInt32}
    (h : Unmatched id s) {w : WebSession} {numReaders : UInt32}
    (helem : s.element key = some ⟨some w, numReaders⟩) : id ≠ key := by
  rintro rfl
  obtain ⟨⟨numReaders', helem'⟩, -⟩ := h
  rw [helem] at helem'
  cases helem'

theorem Unmatched.kept (id : String) : Kept (fun m => Unmatched id m.sessions) := by
  refine kept_of_sessions (fun s key f hs => ?_) (fun s key w hnone hs => ?_)
    (fun s key hs => hs.openElement key) (fun s key hs => hs.releaseElement key)
  · unfold SafeMap.modifyItem
    split
    · rename_i helem
      exact hs.set (hs.ne_of_item? helem) _
    · exact hs
  · refine hs.set ?_ _
    rintro rfl
    obtain ⟨⟨numReaders, helem⟩, -⟩ := hs
    rw [hnone] at helem
    cases helem

theorem Unmatched.destroyElement {id : String} {s : SafeMap String WebSession UInt32}
    (h : Unmatched id s) (key : String) : Unmatched id (s.destroyElement key).2 := by
  unfold SafeMap.destroyElement
  split
  · rename_i helem
    split_ifs
    · exact h.set (h.ne_of_item? helem) _
    · exact h.set (h.ne_of_item? helem) _
  · exact h

theorem Unmatched.destroySession {id : String} {m : WebSessionsManager}
    (h : Unmatched id m.sessions) (key : String) :
    Unmatched id (m.destroySession key).2.sessions :=
  WebSessionsManager.destroySession_kept (fun _ hs => hs.openElement key)
    (fun _ hs => hs.releaseElement key) (fun _ hs => hs.destroyElement key) h

theorem Unmatched.not_balanced {id : String} {s : SafeMap String WebSession UInt32}
    (h : Unmatched id s) : ¬ Balanced s.calls := by
  intro hbal
  have hcount := hbal.1 id
  exact absurd h.2 (by omega)

/-- A dying impersonator's session is released although it cannot be opened. -/
theorem updateActivityOnImpersonatorSession_of_dying {h : ClientHandler} {numReaders : UInt32}
    (hempty : h.sessionsManager.NoEmptyId)
    (helem : h.sessionsManager.sessions.element h.impersonatorSessionID = some ⟨none, numReaders⟩)
    (hcalls : h.calls = []) :
    (∃ h', updateActivityOnImpersonatorSession e h = (false, h') ∧
      h'.calls = [.invalidClose h.impersonatorSessionID]) ∨
    (∃ h', updateActivityOnImpersonatorSession e h = (true, h') ∧
      Unmatched h.impersonatorSessionID h'.sessionsManager.sessions) := by
  unfold updateActivityOnImpersonatorSession
  rw [if_neg (hempty.ne_empty helem),
    WebSessionsManager.openSession_of_none (WebSessionsManager.session?_of_dying helem)]
  change h.sessionsManager.sessions.calls = [] at hcalls
  by_cases hzero : numReaders = 0
  · rw [hzero] at helem
    have hrel := WebSessionsManager.releaseSession_of_unread helem
    simp only [hrel]
    exact .inl ⟨_, rfl, by simp [calls, withManager, hcalls]⟩
  · have hrel : h.sessionsManager.releaseSession h.impersonatorSessionID
        = (.released,
            { h.sessionsManager with
              sessions := (h.sessionsManager.sessions.set h.impersonatorSessionID
                (some ⟨none, numReaders - 1⟩)).record (.released h.impersonatorSessionID) }) := by
      simp [WebSessionsManager.releaseSession, SafeMap.releaseElement, helem, hzero]
    simp only [hrel]
    refine .inr ⟨_, rfl, ⟨numReaders - 1, ?_⟩, ?_⟩
    · simp [withManager, SafeMap.record]
    · simp [withManager, SafeMap.record, SafeMap.set, hcalls]

theorem not_balanced_of_dying {m : WebSessionsManager} (hempty : m.NoEmptyId)
    (hadm : admitted config r = true) (hd : m.isDying r.impersonatorSessionId = true) :
    ¬ Balanced (procHTTPClientContent config r e m.newHandler).2.calls := by
  obtain ⟨numReaders, helem⟩ :
      ∃ numReaders, m.sessions.element r.impersonatorSessionId = some ⟨none, numReaders⟩ := by
    unfold WebSessionsManager.isDying at hd
    split at hd
    · exact ⟨_, ‹_›⟩
    · cases hd
  rw [procHTTPClientContent_of_admitted hadm]
  rcases updateActivityOnImpersonatorSession_of_dying (e := e) (h := m.newHandler.carrying r)
    hempty helem rfl with hthrow | hreleased
  · obtain ⟨h', hres, hcalls⟩ := hthrow
    rw [hres]
    change ¬ Balanced h'.calls
    rw [hcalls]
    exact not_balanced_invalidClose [] _
  · obtain ⟨h', hres, hunmatched⟩ := hreleased
    rw [hres]
    have hkept := Unmatched.kept r.impersonatorSessionId
    have hopen : Unmatched r.impersonatorSessionId
        (openCurrentSession config r e h').2.sessionsManager.sessions :=
      openCurrentSession_kept hkept hunmatched
    simp only
    split
    · exact hopen.not_balanced
    · have hserve : Unmatched r.impersonatorSessionId
          (serve config r e (openCurrentSession config r e h').2).2.sessionsManager.sessions :=
        serve_kept hkept hopen (fun {_ _} _ {_} hm => Unmatched.destroySession hm _)
      exact hserve.not_balanced

/-- An impersonator's session whose readers overflow ends the request. -/
theorem not_balanced_of_full {m : WebSessionsManager} (hempty : m.NoEmptyId)
    (hadm : admitted config r = true) (hd : m.isDying r.impersonatorSessionId = false)
    (hfull : m.hasRoom r.impersonatorSessionId = false) :
    ¬ Balanced (procHTTPClientContent config r e m.newHandler).2.calls := by
  have hin : (m.session? r.impersonatorSessionId).isSome = true := by
    by_contra hnone
    have helem := WebSessionsManager.element_eq_none hd (Option.not_isSome_iff_eq_none.mp hnone)
    have hzero := WebSessionsManager.eq_zero_of_hasRoom hfull
    simp [SafeMap.readers, helem] at hzero
  obtain ⟨w, hw⟩ := Option.isSome_iff_exists.mp hin
  obtain ⟨m', hres, hcalls⟩ := updateActivityOnImpersonatorSession_of_full (e := e)
    (h := m.newHandler.carrying r) hempty hw hfull
  rw [procHTTPClientContent_of_admitted hadm, hres]
  change ¬ Balanced m'.sessions.calls
  rw [hcalls]
  exact not_balanced_overflow _ _

/-- A request that is admitted, and whose impersonator's session is not dying and has room. -/
theorem balanced_iff_of_admitted {m : WebSessionsManager} (hempty : m.NoEmptyId)
    (hadm : admitted config r = true) (hd : m.isDying r.impersonatorSessionId = false)
    (hparent : m.hasRoom r.impersonatorSessionId = true) :
    Balanced (procHTTPClientContent config r e m.newHandler).2.calls ↔
      match presented r e m with
      | some w =>
        m.hasRoom r.sessionId = true ∧ clientMatches config r w = true ∧
          throws config r e (some w.authSession) = false ∧ acceptedLogin config r e (some w) = none
      | none =>
        ∀ token, acceptedLogin config r e none = some token →
          m.creates e.random token.getSubject = false := by
  have hvalid : validateSessionIDFormat r.sessionId = true := by
    simp only [admitted, Bool.and_eq_true] at hadm
    exact hadm.1.1.2
  rw [procHTTPClientContent_of_admitted hadm,
    updateActivityOnImpersonatorSession_of_not_dying (h := m.newHandler.carrying r) hempty hd
      hparent]
  set h : ClientHandler := (m.newHandler.carrying r).withManager
    ((m.forget.updateLastActivity r.impersonatorSessionId e.now).addCalls
      (m.forget.touches r.impersonatorSessionId)) with hh
  have hpresented : h.sessionsManager.session? h.sessionID = presented r e m :=
    m.forget.session?_updateLastActivity r.impersonatorSessionId r.sessionId e.now
  have hreaders : ∀ id, h.sessionsManager.sessions.readers id = m.sessions.readers id :=
    fun id => m.forget.sessions.readers_modifyItem r.impersonatorSessionId _ id
  have hparent' : h.sessionsManager.hasRoom h.impersonatorSessionID = true := by
    rw [WebSessionsManager.hasRoom_congr (hreaders _)]
    exact hparent
  have hbal : Balanced h.calls := by
    have hcalls : h.calls = [] ++ m.forget.touches r.impersonatorSessionId := by
      simp [hh, calls, withManager, WebSessionsManager.updateLastActivity,
        WebSessionsManager.forget]
    rw [hcalls, balanced_append_touches]
    exact balanced_nil
  have hempty' : h.sessionsManager.NoEmptyId :=
    SafeMap.element_eq_none_modifyItem (m := m.forget.sessions) hempty _ _
  change Balanced (Prod.snd (if (openCurrentSession config r e h).1 ≠ .S_200_OK then
      (Outcome.answered (openCurrentSession config r e h).1, (openCurrentSession config r e h).2)
    else serve config r e (openCurrentSession config r e h).2)).calls ↔ _
  cases hw : presented r e m with
  | none =>
      have helem : ∀ id, (h.sessionsManager.sessions.element id).isNone
          = (m.sessions.element id).isNone :=
        m.forget.sessions.isNone_element_modifyItem r.impersonatorSessionId _
      have hcreates : ∀ user, h.sessionsManager.creates e.random user = m.creates e.random user :=
        @WebSessionsManager.creates_congr m h.sessionsManager rfl rfl helem e.random
      rw [openCurrentSession_of_none (hpresented.trans hw), if_neg (by simp)]
      refine (balanced_serve_of_none (h := { h with destroySession := true, sessionID := "" })
        rfl rfl rfl hvalid hparent' hbal).trans ?_
      simp only [hcreates]
  | some w =>
      obtain ⟨maxAge, hstart⟩ := openCurrentSession_of_some config r e (hpresented.trans hw)
      have hopen := SafeMap.openElement_of_some (hpresented.trans hw)
      have hroom : m.hasRoom r.sessionId = true ↔ m.sessions.readers r.sessionId + 1 ≠ 0 :=
        decide_eq_true_iff
      cases hmatch : clientMatches config r w with
      | false =>
          rw [hstart, hmatch]
          refine iff_of_false ?_ (by simp [hmatch])
          change ¬ Balanced (h.sessionsManager.sessions.openElement h.sessionID).2.calls
          rw [hopen]
          exact not_balanced_opened hbal _
      | true =>
          rw [hstart, hmatch, if_pos rfl, if_neg (by simp)]
          simp only [true_and, hmatch, hroom]
          refine @balanced_serve_of_some _ _ _ _ (h.opened w maxAge) _ _ h.calls rfl rfl ?_ ?_
            ?_ (SafeMap.element_eq_none_openElement hempty' _) hvalid ?_ hbal
          · change ((h.sessionsManager.sessions.openElement h.sessionID).2.item? h.sessionID).isSome
              = true
            rw [SafeMap.item?_openElement]
            exact Option.isSome_of_eq_some (hpresented.trans hw)
          · change (h.sessionsManager.sessions.openElement h.sessionID).2.readers h.sessionID = _
            rw [hopen, SafeMap.readers_record, SafeMap.readers_set, if_pos rfl, hreaders]
            rfl
          · intro hne
            rw [WebSessionsManager.hasRoom_congr (m := h.sessionsManager)]
            · exact hparent'
            · change (h.sessionsManager.sessions.openElement h.sessionID).2.readers _ = _
              rw [hopen, SafeMap.readers_record, SafeMap.readers_set]
              exact if_neg hne
          · change (h.sessionsManager.sessions.openElement h.sessionID).2.calls = _
            rw [hopen]
            rfl

/-- **The balanced requests.**  From sessions none of which has the empty id, a request
releases each session as often as it opened it, and no release throws, exactly if the
condition holds. -/
theorem balanced_iff {m : WebSessionsManager} (hempty : m.NoEmptyId) :
    Balanced (procHTTPClientContent config r e m.newHandler).2.calls ↔
      ReferencesKept config r e m := by
  cases hadm : admitted config r with
  | false =>
      have hsame := (procHTTPClientContent_of_not_admitted (e := e) hadm m.newHandler).1
      refine iff_of_true ?_ (fun h => by simp [hadm] at h)
      rw [calls, hsame]
      exact balanced_nil
  | true =>
      cases hd : m.isDying r.impersonatorSessionId with
      | true =>
          exact iff_of_false (not_balanced_of_dying hempty hadm hd)
            (fun h => by simp [(h hadm).1] at hd)
      | false =>
          cases hroom : m.hasRoom r.impersonatorSessionId with
          | false =>
              exact iff_of_false (not_balanced_of_full hempty hadm hd hroom)
                (fun h => by simp [(h hadm).2.1] at hroom)
          | true =>
              rw [balanced_iff_of_admitted hempty hadm hd hroom]
              exact ⟨fun h _ => ⟨hd, hroom, h⟩, fun h => (h hadm).2.2⟩

end ClientHandler

/-! ## Runs of the server -/

namespace WebSessionsManager

open ClientHandler

variable {Regex : Type*} {config : WebParameters Regex}

theorem tallied_kept (start : String → UInt32) : Kept (fun m => m.sessions.Tallied start) :=
  kept_of_sessions (fun _ id f hs => hs.modifyItem id f) (fun _ _ w hnone hs => hs.set hnone w)
    (fun _ id hs => hs.openElement id) (fun _ id hs => hs.releaseElement id)

/-- A balanced request leaves each session the readers it had. -/
theorem readers_of_balanced {r : Request} {e : Surroundings} {m : WebSessionsManager}
    (hbal : Balanced (procHTTPClientContent config r e m.newHandler).2.calls) (id : String) :
    (procHTTPClientContent config r e m.newHandler).2.sessionsManager.sessions.readers id
      = m.sessions.readers id := by
  have hstart : m.newHandler.sessionsManager.sessions.Tallied m.sessions.readers := fun _ => rfl
  have htally : (procHTTPClientContent config r e m.newHandler).2.sessionsManager.sessions.Tallied
      m.sessions.readers :=
    procHTTPClientContent_kept (tallied_kept m.sessions.readers)
      (fun id hm => destroySession_kept (fun _ hs => hs.openElement id)
        (fun _ hs => hs.releaseElement id) (fun _ hs => hs.destroyElement id) hm) hstart
  have hid := htally id
  have hcount := hbal.1 id
  unfold ClientHandler.calls at hcount
  rw [hcount] at hid
  -- the counts of both sides are below 2^32
  have hbefore := (m.sessions.readers id).toNat_lt
  have hafter := ((procHTTPClientContent config r e
    m.newHandler).2.sessionsManager.sessions.readers id).toNat_lt
  exact UInt32.toNat_inj.mp (by omega)

/-- Opening and releasing a session that has room leaves the readers. -/
theorem readers_visited {m : WebSessionsManager} {key : String} {w : WebSession}
    (hitem : m.session? key = some w) (hroom : m.hasRoom key = true) (id : String) :
    (m.visited key).readers id = m.sessions.readers id := by
  rw [visited_of_hasRoom hitem hroom]
  rfl

theorem readers_gcVisit {m : WebSessionsManager} {key : String} (hroom : m.hasRoom key = true)
    (now : ℤ) (id : String) : (m.gcVisit key now).sessions.readers id = m.sessions.readers id := by
  rcases m.gcVisit_cases key now with hnone | ⟨w, hitem, honly | ⟨-, hgone⟩⟩
  · rw [hnone]
  · rw [honly]
    exact readers_visited hitem hroom id
  · rw [hgone, SafeMap.readers_destroyElement]
    exact readers_visited hitem hroom id

theorem readers_wake (m : WebSessionsManager) (key id : String) :
    (m.wake key).sessions.readers id = m.sessions.readers id := by
  rcases m.wake_sessions key with hsame | hfinish
  · rw [hsame]
  · exact SafeMap.readers_finishDestroy hfinish id

variable (config) in
/-- The steps that leave each session its readers: the balanced requests, and the visits of the
garbage collector that find room for one more reader. -/
def KeepsReaders (m : WebSessionsManager) : ServerOp → Prop
  | .request r e => ReferencesKept config r e m
  | .gcVisit key _ => m.hasRoom key = true
  | .wake _ => True

theorem readers_step {m m' : WebSessionsManager} {op : ServerOp} {output : Option Answer}
    (hempty : m.NoEmptyId) (hkeeps : KeepsReaders config m op)
    (hstep : m.step config op = some (m', output)) (id : String) :
    m'.sessions.readers id = m.sessions.readers id := by
  cases op with
  | request r e =>
      rw [step_request] at hstep
      obtain ⟨rfl, rfl⟩ := Prod.mk.inj (Option.some.inj hstep)
      exact readers_of_balanced ((balanced_iff hempty).mpr hkeeps) id
  | gcVisit key now =>
      cases hstep
      exact readers_gcVisit hkeeps now id
  | wake key =>
      cases hstep
      exact m.readers_wake key id

/-- **Balanced references.**  In every run of the server a request is balanced exactly if its
condition holds, and a step with which it holds leaves each session the readers it had.  So in a
run of such steps no session keeps a reader. -/
theorem references_balanced_iff (config : WebParameters Regex)
    (maxInactiveSeconds maxSessionsPerUser : ℕ) (ops : List ServerOp) :
    (∀ t ∈ Run.transitions (fun m op => m.step config op)
        (fresh maxInactiveSeconds maxSessionsPerUser) ops,
      (∀ r e, t.input = .request r e →
        (Balanced t.after.sessions.calls ↔ ReferencesKept config r e t.before)) ∧
      (KeepsReaders config t.before t.input →
        ∀ id, t.after.sessions.readers id = t.before.sessions.readers id)) ∧
    (Run.Guarded (fun m op => m.step config op) (KeepsReaders config)
        (fresh maxInactiveSeconds maxSessionsPerUser) ops →
      ∀ t ∈ Run.transitions (fun m op => m.step config op)
        (fresh maxInactiveSeconds maxSessionsPerUser) ops,
        ∀ id, t.after.sessions.readers id = 0) := by
  constructor
  · intro t ht
    have hempty := noEmptyId_before ht
    have hstep := Run.step_of_mem_transitions ht
    constructor
    · intro r e hinput
      rw [hinput, step_request] at hstep
      have hafter := congrArg Prod.fst (Option.some.inj hstep)
      simp only at hafter
      rw [← hafter]
      exact balanced_iff hempty
    · intro hkeeps id
      exact readers_step hempty hkeeps hstep id
  · intro hguard t ht
    have hunread := hguard.invariant (fun m => m.NoEmptyId ∧ ∀ id, m.sessions.readers id = 0)
      (fun m op m' output hm hkeeps hstep => ⟨hm.1.step hstep, fun id =>
        (readers_step hm.1 hkeeps hstep id).trans (hm.2 id)⟩) ⟨noEmptyId_fresh _ _, fun _ => rfl⟩
    exact (hunread t ht).2.2

/-- A request without a session is balanced. -/
theorem references_balanced_iff_info :
    Balanced (procHTTPClientContent sampleWeb sampleInfo sampleSurroundings
      (fresh 900 100).newHandler).2.calls := by
  have hstep : (fresh 900 100).step sampleWeb (.request sampleInfo sampleSurroundings) = _ :=
    step_request (fresh 900 100) sampleInfo sampleSurroundings
  refine (((references_balanced_iff sampleWeb 900 100
    [.request sampleInfo sampleSurroundings]).1 _ (Run.mem_transitions_head hstep)).1
      _ _ rfl).mpr ?_
  have hnologin : acceptedLogin sampleWeb sampleInfo sampleSurroundings none = none :=
    acceptedLogin_of_ne_login (by decide) none
  intro _
  refine ⟨by decide, by decide, fun token htoken => ?_⟩
  rw [hnologin] at htoken
  cases htoken

/-- The login that makes the first session releases it although nobody has opened it. -/
theorem login_not_balanced :
    (procHTTPClientContent sampleWeb sampleLogin sampleSurroundings
      (fresh 900 100).newHandler).2.calls
        = [.invalidClose "AAAAAAAAAAAA:BBBBBBBBBBBB"] ∧
    ¬ Balanced (procHTTPClientContent sampleWeb sampleLogin sampleSurroundings
      (fresh 900 100).newHandler).2.calls := by
  have hcalls : (procHTTPClientContent sampleWeb sampleLogin sampleSurroundings
      (fresh 900 100).newHandler).2.calls = [.invalidClose "AAAAAAAAAAAA:BBBBBBBBBBBB"] := by
    decide
  refine ⟨hcalls, ?_⟩
  rw [hcalls]
  exact not_balanced_invalidClose [] _

end WebSessionsManager

end Mantids
