/-
# The web sessions of a monolith server

`WebSessionsManager` (`Server_MonolithWebAPI/sessionsmanager.cpp`) keeps the sessions of all
clients in a `SafeMap` under random session ids, and for each user the ids of his sessions.

* `createSession`, `openSession`, `releaseSession`, `destroySession` — the operations a
  request uses;
* `gcVisit` — one round of the loop of `gc()`, which visits every key of the map;
* `wake` — what a thread does that waited in `destroyElement` for the last reader.

The clock is an argument.  The random part of a new id is an argument too.
-/
import Mantids.SafeMap
import Mantids.Token

namespace Mantids

/-! ## Session ids -/

/-- `RPCLog::truncateSessionId`. -/
def truncateSessionId (sSessionId : String) : String := String.ofList (sSessionId.toList.take 12)

/-- `validateSessionIDFormat`: empty, or twelve letters or digits on both sides of a colon. -/
def validateSessionIDFormat (sessionID : String) : Bool :=
  let text := sessionID.toList
  sessionID = "" ||
    (text.length = 25 && (text.take 12).all Char.isAlphanum && text[12]? = some ':' &&
      (text.drop 13).all Char.isAlphanum)

/-! ## The manager -/

/-- `WebSession`. -/
structure WebSession where
  authSession : Session
  networkClientInfo : Json.Members

namespace WebSession

def compareUserAgent (w : WebSession) (userAgent : String) : Bool :=
  (w.networkClientInfo.get "userAgent").asStringD "" = userAgent

def compareRemoteAddress (w : WebSession) (remoteAddress : String) : Bool :=
  (w.networkClientInfo.get "remoteAddress").asStringD "" = remoteAddress

def updateLastActivity (w : WebSession) (now : ℤ) : WebSession :=
  { w with authSession := w.authSession.updateLastActivity now }

end WebSession

/-- Who waits in `destroyElement`: the garbage collector, or `destroySession` for a session
of a user. -/
inductive Destroyer where
  | gc
  | destroySession (effectiveUser : String)
deriving DecidableEq

/-- `WebSessionsManager`. -/
structure WebSessionsManager where
  /-- `m_sessions`. -/
  sessions : SafeMap String WebSession UInt32 := {}
  /-- `m_sessionClientInfo`: the ids of the sessions of a user. -/
  sessionClientInfo : String → Option (Finset String) := fun _ => none
  /-- `m_MaxInactiveSeconds`. -/
  maxInactiveSeconds : ℕ := 900
  /-- `m_maxSessionsPerUser`. -/
  maxSessionsPerUser : ℕ := 100
  /-- The threads that wait for the readers of a session. -/
  waiting : String → Option Destroyer := fun _ => none

namespace WebSessionsManager

/-- The first part of `createSession`: the id is entered for the user, unless he has too
many. -/
def registerClient (m : WebSessionsManager) (effectiveUser sessionId : String) :
    Option WebSessionsManager :=
  match m.sessionClientInfo effectiveUser with
  | none =>
    some { m with
      sessionClientInfo := Function.update m.sessionClientInfo effectiveUser (some {sessionId}) }
  | some ids =>
    if m.maxSessionsPerUser ≤ ids.card then none
    else
      some { m with
        sessionClientInfo :=
          Function.update m.sessionClientInfo effectiveUser (some (insert sessionId ids)) }

/-- `createSession`: the id, or the empty text, and the maximal age.  Without random bytes
it throws. -/
def createSession (m : WebSessionsManager) (random : Option (String × String))
    (session : Session) (networkClientInfo : Json.Members) :
    Option (String × ℕ × WebSessionsManager) :=
  match random with
  | none => none
  | some (a, b) =>
    let sessionId := a ++ ":" ++ b
    match m.registerClient session.user sessionId with
    | none => some ("", 0, m)
    | some m' =>
      match m'.sessions.addElement sessionId ⟨session, networkClientInfo⟩ with
      | (true, sessions) =>
        some (sessionId, m.maxInactiveSeconds, { m' with sessions := sessions })
      | (false, _) => some ("", m.maxInactiveSeconds, m')

/-- `openSession`, with the time that is left for the session. -/
def openSession (m : WebSessionsManager) (sessionID : String) (now : ℤ) :
    Option (WebSession × ℕ) × WebSessionsManager :=
  match m.sessions.openElement sessionID with
  | (none, _) => (none, m)
  | (some xs, sessions) =>
    let maxAge :=
      if xs.authSession.isLastActivityExpired m.maxInactiveSeconds now then 0
      else (xs.authSession.lastActivity + m.maxInactiveSeconds - now).toNat
    (some (xs, maxAge), { m with sessions := sessions })

def releaseSession (m : WebSessionsManager) (sessionID : String) :
    SafeMap.Release × WebSessionsManager :=
  let (result, sessions) := m.sessions.releaseElement sessionID
  (result, { m with sessions := sessions })

/-- The result of `destroySession`: `true`, `false`, the exception "Unregistered
Session??", the exception of the release, or it waits for the readers. -/
inductive DestroyResult where
  | destroyed
  | notFound
  | unregistered
  | invalidClose
  | waiting
deriving DecidableEq

/-- The last part of `destroySession`: the id is taken from the user. -/
def unregisterClient (m : WebSessionsManager) (effectiveUser sessionID : String) :
    DestroyResult × WebSessionsManager :=
  match m.sessionClientInfo effectiveUser with
  | none => (.unregistered, m)
  | some ids =>
    if sessionID ∈ ids then
      (.destroyed,
        { m with
          sessionClientInfo :=
            Function.update m.sessionClientInfo effectiveUser
              (if ids.erase sessionID = ∅ then none else some (ids.erase sessionID)) })
    else (.unregistered, m)

/-- The second part of `destroySession`, after the release. -/
def destroyReleased (m : WebSessionsManager) (effectiveUser sessionID : String) :
    DestroyResult × WebSessionsManager :=
  match m.sessions.destroyElement sessionID with
  | (.destroyed, sessions) =>
    { m with sessions := sessions }.unregisterClient effectiveUser sessionID
  | (.waiting, sessions) =>
    (.waiting,
      { m with
        sessions := sessions
        waiting := Function.update m.waiting sessionID (some (.destroySession effectiveUser)) })
  | (.notFound, sessions) => (.notFound, { m with sessions := sessions })

/-- `destroySession`.  The release of what was opened just before throws if the count of the
readers has overflown. -/
def destroySession (m : WebSessionsManager) (sessionID : String) :
    DestroyResult × WebSessionsManager :=
  match m.sessions.openElement sessionID with
  | (none, _) => (.notFound, m)
  | (some sess, sessions) =>
    match sessions.releaseElement sessionID with
    | (.invalidClose, sessions) => (.invalidClose, { m with sessions := sessions })
    | (_, sessions) =>
      { m with sessions := sessions }.destroyReleased sess.authSession.user sessionID

/-- One round of the loop of `gc()`: a session without activity for too long is destroyed.  The
release comes first, and may throw. -/
def gcVisit (m : WebSessionsManager) (key : String) (now : ℤ) : WebSessionsManager :=
  match m.sessions.openElement key with
  | (none, _) => m
  | (some s, sessions) =>
    match sessions.releaseElement key with
    | (.invalidClose, sessions) => { m with sessions := sessions }
    | (_, sessions) =>
      if s.authSession.isLastActivityExpired m.maxInactiveSeconds now then
        match sessions.destroyElement key with
        | (.waiting, sessions) =>
          { m with sessions := sessions, waiting := Function.update m.waiting key (some .gc) }
        | (_, sessions) => { m with sessions := sessions }
      else { m with sessions := sessions }

/-- A thread that waits in `destroyElement` goes on when no reader is left. -/
def wake (m : WebSessionsManager) (key : String) : WebSessionsManager :=
  match m.waiting key, m.sessions.finishDestroy key with
  | some destroyer, some sessions =>
    let m := { m with sessions := sessions, waiting := Function.update m.waiting key none }
    match destroyer with
    | .gc => m
    | .destroySession effectiveUser => (m.unregisterClient effectiveUser key).2
  | _, _ => m

/-- `Session::updateLastActivity` of a session that is open. -/
def updateLastActivity (m : WebSessionsManager) (sessionID : String) (now : ℤ) :
    WebSessionsManager :=
  { m with sessions := m.sessions.modifyItem sessionID (·.updateLastActivity now) }

/-- What `getUserSessionsInfo` leaves behind: reading the map of a user makes one. -/
def getUserSessionsInfo (m : WebSessionsManager) (effectiveUserName : String) :
    WebSessionsManager :=
  { m with
    sessionClientInfo :=
      Function.update m.sessionClientInfo effectiveUserName
        (some ((m.sessionClientInfo effectiveUserName).getD ∅)) }

/-! ## Which sessions stay open to requests -/

/-- The session that `openSession` would return. -/
def session? (m : WebSessionsManager) (sessionID : String) : Option WebSession :=
  m.sessions.item? sessionID

/-- A session id can be opened. -/
def Openable (m : WebSessionsManager) (sessionID : String) : Prop :=
  (m.session? sessionID).isSome

instance (m : WebSessionsManager) (sessionID : String) : Decidable (m.Openable sessionID) :=
  inferInstanceAs (Decidable ((m.session? sessionID).isSome = true))

@[simp] theorem registerClient_sessions {m m' : WebSessionsManager} {user id : String}
    (h : m.registerClient user id = some m') : m'.sessions = m.sessions := by
  unfold registerClient at h
  split at h
  · simp only [Option.some.injEq] at h
    rw [← h]
  · split_ifs at h
    simp only [Option.some.injEq] at h
    rw [← h]

/-- `createSession` makes a session: the user may have one more, and the random id is not
in use. -/
def creates (m : WebSessionsManager) (random : Option (String × String)) (effectiveUser : String) :
    Bool :=
  match random with
  | none => false
  | some (a, b) =>
    (m.registerClient effectiveUser (a ++ ":" ++ b)).isSome &&
      (m.sessions.element (a ++ ":" ++ b)).isNone

theorem isSome_registerClient (m : WebSessionsManager) (user id : String) :
    (m.registerClient user id).isSome = true ↔
      ∀ ids, m.sessionClientInfo user = some ids → ids.card < m.maxSessionsPerUser := by
  unfold registerClient
  cases hinfo : m.sessionClientInfo user with
  | none => simp
  | some ids =>
      by_cases hle : m.maxSessionsPerUser ≤ ids.card
      · simp [hle]
      · simp [hle, not_le.mp hle]

/-- Only the ids of the user and the keys of the map matter for a new session. -/
theorem creates_congr {m m' : WebSessionsManager}
    (hinfo : m'.sessionClientInfo = m.sessionClientInfo)
    (hmax : m'.maxSessionsPerUser = m.maxSessionsPerUser)
    (helem : ∀ id, (m'.sessions.element id).isNone = (m.sessions.element id).isNone)
    (random : Option (String × String)) (user : String) :
    m'.creates random user = m.creates random user := by
  cases random with
  | none => rfl
  | some ab =>
      obtain ⟨a, b⟩ := ab
      have hreg : (m'.registerClient user (a ++ ":" ++ b)).isSome
          = (m.registerClient user (a ++ ":" ++ b)).isSome := by
        rw [Bool.eq_iff_iff, isSome_registerClient, isSome_registerClient, hinfo, hmax]
      simp only [creates]
      rw [hreg, helem]

/-- What `createSession` does: it throws; it enters a session without readers under a new
id; or it leaves the sessions alone. -/
theorem createSession_cases (m : WebSessionsManager) (random : Option (String × String))
    (session : Session) (info : Json.Members) :
    (random = none ∧ m.createSession random session info = none) ∨
    (m.creates random session.user = true ∧ ∃ id m',
      id ≠ "" ∧ m.sessions.element id = none ∧
      m.createSession random session info = some (id, m.maxInactiveSeconds, m') ∧
      m'.sessions = m.sessions.set id (some ⟨some ⟨session, info⟩, 0⟩)) ∨
    (m.creates random session.user = false ∧ ∃ maxAge m',
      m.createSession random session info = some ("", maxAge, m') ∧
      m'.sessions = m.sessions) := by
  cases random with
  | none => exact .inl ⟨rfl, rfl⟩
  | some ab =>
      obtain ⟨a, b⟩ := ab
      refine .inr ?_
      cases hreg : m.registerClient session.user (a ++ ":" ++ b) with
      | none =>
          exact .inr ⟨by simp [creates, hreg], 0, m, by simp [createSession, hreg], rfl⟩
      | some m' =>
          have hsess := registerClient_sessions hreg
          cases helem : m.sessions.element (a ++ ":" ++ b) with
          | none =>
              exact .inl ⟨by simp [creates, hreg, helem], a ++ ":" ++ b,
                { m' with
                  sessions := m.sessions.set (a ++ ":" ++ b) (some ⟨some ⟨session, info⟩, 0⟩) },
                by simp, helem,
                by simp [createSession, hreg, SafeMap.addElement, hsess, helem], rfl⟩
          | some entry =>
              exact .inr ⟨by simp [creates, hreg, helem], m.maxInactiveSeconds, m',
                by simp [createSession, hreg, SafeMap.addElement, hsess, helem], hsess⟩

@[simp] theorem unregisterClient_sessions (m : WebSessionsManager) (user id : String) :
    (m.unregisterClient user id).2.sessions = m.sessions := by
  unfold unregisterClient
  split
  · rfl
  · split_ifs <;> rfl

/-! ## What is left of the sessions -/

@[simp] theorem destroyReleased_sessions (m : WebSessionsManager) (user id : String) :
    (m.destroyReleased user id).2.sessions = (m.sessions.destroyElement id).2 := by
  unfold destroyReleased
  split <;> simp [*]

/-- The sessions after one of them was opened and released. -/
def visited (m : WebSessionsManager) (id : String) : SafeMap String WebSession UInt32 :=
  ((m.sessions.openElement id).2.releaseElement id).2

/-- A session that was opened and released is where it was. -/
theorem session?_visited (m : WebSessionsManager) (key id : String) :
    (m.visited key).item? id = m.session? id := by
  unfold visited
  rw [SafeMap.item?_releaseElement, SafeMap.item?_openElement]
  rfl

/-- What a destruction leaves of the sessions: it finds nothing; its release throws; or it takes
the session out of reach. -/
theorem destroySession_cases (m : WebSessionsManager) (id : String) :
    (m.destroySession id).2.sessions = m.sessions ∨
    (m.destroySession id).2.sessions = m.visited id ∨
    (m.destroySession id).2.sessions = ((m.visited id).destroyElement id).2 := by
  unfold destroySession visited
  cases hopen : m.sessions.openElement id with
  | mk xs sessions =>
    cases xs with
    | none => exact .inl rfl
    | some w =>
      simp only
      cases hrel : sessions.releaseElement id with
      | mk result sessions' =>
        refine .inr ?_
        cases result with
        | invalidClose => exact .inl rfl
        | released => exact .inr (destroyReleased_sessions _ _ _)
        | notFound => exact .inr (destroyReleased_sessions _ _ _)

/-- A property of the sessions that opening, releasing and destroying keep. -/
theorem destroySession_kept {Q : SafeMap String WebSession UInt32 → Prop}
    {m : WebSessionsManager} {id : String} (hopen : ∀ s, Q s → Q (s.openElement id).2)
    (hrelease : ∀ s, Q s → Q (s.releaseElement id).2)
    (hdestroy : ∀ s, Q s → Q (s.destroyElement id).2) (hq : Q m.sessions) :
    Q (m.destroySession id).2.sessions := by
  have hvisited : Q (m.visited id) := hrelease _ (hopen _ hq)
  rcases m.destroySession_cases id with hnone | hthrow | hgone
  · rw [hnone]
    exact hq
  · rw [hthrow]
    exact hvisited
  · rw [hgone]
    exact hdestroy _ hvisited

/-- What a visit of the garbage collector leaves of the sessions: it finds nothing; it only opens
and releases the session, or its release throws; or it destroys a session without activity. -/
theorem gcVisit_cases (m : WebSessionsManager) (key : String) (now : ℤ) :
    (m.gcVisit key now).sessions = m.sessions ∨
    ∃ w, m.session? key = some w ∧
      ((m.gcVisit key now).sessions = m.visited key ∨
        w.authSession.isLastActivityExpired m.maxInactiveSeconds now = true ∧
          (m.gcVisit key now).sessions = ((m.visited key).destroyElement key).2) := by
  unfold gcVisit visited
  cases hitem : m.session? key with
  | none => exact .inl (by rw [SafeMap.openElement_of_none hitem])
  | some w =>
      refine .inr ⟨w, rfl, ?_⟩
      rw [SafeMap.openElement_eq_some hitem]
      simp only
      cases hrel : (m.sessions.openElement key).2.releaseElement key with
      | mk result sessions =>
        cases hexpired : w.authSession.isLastActivityExpired m.maxInactiveSeconds now with
        | false => exact .inl (by cases result <;> simp)
        | true =>
          cases hdestroy : sessions.destroyElement key with
          | mk ended sessions' =>
            cases result with
            | invalidClose => exact .inl rfl
            | released => exact .inr ⟨rfl, by cases ended <;> simp [hdestroy]⟩
            | notFound => exact .inr ⟨rfl, by cases ended <;> simp [hdestroy]⟩

/-- A property of the sessions that opening, releasing and destroying keep. -/
theorem gcVisit_kept {Q : SafeMap String WebSession UInt32 → Prop} {m : WebSessionsManager}
    {key : String} (hopen : ∀ s, Q s → Q (s.openElement key).2)
    (hrelease : ∀ s, Q s → Q (s.releaseElement key).2)
    (hdestroy : ∀ s, Q s → Q (s.destroyElement key).2) (hq : Q m.sessions) (now : ℤ) :
    Q (m.gcVisit key now).sessions := by
  have hvisited : Q (m.visited key) := hrelease _ (hopen _ hq)
  rcases m.gcVisit_cases key now with hnone | ⟨-, -, honly | ⟨-, hgone⟩⟩
  · rw [hnone]
    exact hq
  · rw [honly]
    exact hvisited
  · rw [hgone]
    exact hdestroy _ hvisited

end WebSessionsManager

end Mantids
