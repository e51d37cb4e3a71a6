/-
# The sessions of a user

A `WebSessionsManager` (`Server_MonolithWebAPI/sessionsmanager.cpp`) keeps the ids of a user's
sessions apart from the sessions, to limit their number.  `createSession` enters an id and
`destroySession` takes it away; the garbage collector destroys a session and leaves its id.

* `sessionStep` — the operations, in any order;
* `Booked` — the ids of a user are those of his sessions;
* `KeepsBooks` — the condition: no session is collected, and the limit is not zero;
* `sessions_booked` — what holds in every run that meets it.
-/
import Mantids.Lib.Run
import Mantids.SessionsManager

namespace Mantids

open Run

/-- The operations of a `WebSessionsManager`. -/
inductive SessionOp where
  | createSession (random : Option (String × String)) (session : Session)
      (networkClientInfo : Json.Members)
  | destroySession (sessionID : String)
  | openSession (sessionID : String) (now : ℤ)
  | releaseSession (sessionID : String)
  /-- One round of the loop of `gc()`. -/
  | gcVisit (key : String) (now : ℤ)
  /-- A thread that waits for the readers of a session goes on. -/
  | wake (key : String)

namespace WebSessionsManager

/-- What a `destroySession` that has waited returns. -/
def wakeResult (m : WebSessionsManager) (key : String) : Option DestroyResult :=
  match m.waiting key, m.sessions.finishDestroy key with
  | some (.destroySession effectiveUser), some sessions =>
    some ({ m with
      sessions := sessions
      waiting := Function.update m.waiting key none }.unregisterClient effectiveUser key).1
  | _, _ => none

/-- An operation, with the result of `destroySession`.  An exception of `createSession` leaves the
manager alone. -/
def sessionStep (m : WebSessionsManager) :
    SessionOp → Option (WebSessionsManager × Option DestroyResult)
  | .createSession random session networkClientInfo =>
    some (((m.createSession random session networkClientInfo).map (·.2.2)).getD m, none)
  | .destroySession sessionID =>
    some ((m.destroySession sessionID).2, some (m.destroySession sessionID).1)
  | .openSession sessionID now => some ((m.openSession sessionID now).2, none)
  | .releaseSession sessionID => some ((m.releaseSession sessionID).2, none)
  | .gcVisit key now => some (m.gcVisit key now, none)
  | .wake key => some (m.wake key, m.wakeResult key)

/-! ## The books -/

/-- The ids that are registered for a user. -/
def registeredIds (m : WebSessionsManager) (effectiveUser : String) : Finset String :=
  (m.sessionClientInfo effectiveUser).getD ∅

/-- A session of a user is in the map; perhaps its destruction waits for the readers. -/
def Present (m : WebSessionsManager) (effectiveUser id : String) : Prop :=
  (∃ w, m.session? id = some w ∧ w.authSession.user = effectiveUser) ∨
    m.waiting id = some (.destroySession effectiveUser)

/-- The ids of a user are those of his sessions, and not too many; a user without a session can
make one. -/
structure Booked (m : WebSessionsManager) : Prop where
  registered : ∀ user id, id ∈ m.registeredIds user ↔ m.Present user id
  owner : ∀ id, m.sessions.element id ≠ none ↔ ∃ user, m.Present user id
  limit : ∀ user, (m.registeredIds user).card ≤ m.maxSessionsPerUser
  canCreate : ∀ (session : Session) (networkClientInfo : Json.Members) (a b : String),
    1 ≤ m.maxSessionsPerUser → (∀ id, ¬ m.Present session.user id) →
    m.sessions.element (a ++ ":" ++ b) = none →
    ∃ m', m.createSession (some (a, b)) session networkClientInfo =
      some (a ++ ":" ++ b, m.maxInactiveSeconds, m')

/-! ## The condition -/

/-- The random id of a new session is not in use. -/
def NewId (m : WebSessionsManager) : SessionOp → Prop
  | .createSession random _ _ => ∀ ab ∈ random, m.sessions.element (ab.1 ++ ":" ++ ab.2) = none
  | _ => True

/-- The limit allows a session that is made, and the garbage collector finds no session that has
expired. -/
def KeepsBooks (m : WebSessionsManager) (op : SessionOp) : Prop :=
  m.NewId op ∧
  match op with
  | .createSession .. => 1 ≤ m.maxSessionsPerUser
  | .gcVisit key now => ∀ w ∈ m.session? key,
      w.authSession.isLastActivityExpired m.maxInactiveSeconds now = false
  | _ => True

/-! ## What an operation keeps -/

/-- The books, and who waits. -/
structure Tracked (m : WebSessionsManager) : Prop where
  registered : ∀ user id, id ∈ m.registeredIds user ↔ m.Present user id
  limit : ∀ user, (m.registeredIds user).card ≤ m.maxSessionsPerUser
  dying : ∀ id, m.sessions.element id ≠ none → m.session? id = none →
    ∃ user, m.waiting id = some (.destroySession user)
  waits : ∀ id destroyer, m.waiting id = some destroyer →
    m.sessions.element id ≠ none ∧ m.session? id = none

variable {m : WebSessionsManager}

/-- A session has one user. -/
theorem Tracked.present_unique (h : m.Tracked) {u v id : String} (hu : m.Present u id)
    (hv : m.Present v id) : u = v := by
  rcases hu with ⟨w, hw, rfl⟩ | hu <;> rcases hv with ⟨w', hw', rfl⟩ | hv
  · rw [hw] at hw'
    cases hw'
    rfl
  · rw [(h.waits id _ hv).2] at hw
    cases hw
  · rw [(h.waits id _ hu).2] at hw'
    cases hw'
  · rw [hu] at hv
    cases hv
    rfl

theorem Tracked.element_of_present (h : m.Tracked) {user id : String} (hp : m.Present user id) :
    m.sessions.element id ≠ none := by
  rcases hp with ⟨w, hw, -⟩ | hp
  · obtain ⟨k, helem⟩ := SafeMap.element_of_item? hw
    rw [helem]
    exact Option.some_ne_none _
  · exact (h.waits id _ hp).1

theorem Tracked.booked (h : m.Tracked) : m.Booked := by
  constructor
  · exact h.registered
  · intro id
    constructor
    · intro helem
      cases hw : m.session? id with
      | none =>
          obtain ⟨user, hwait⟩ := h.dying id helem hw
          exact ⟨user, Or.inr hwait⟩
      | some w => exact ⟨_, Or.inl ⟨w, hw, rfl⟩⟩
    · rintro ⟨user, hp⟩
      exact h.element_of_present hp
  · exact h.limit
  · intro session info a b hone hnone hfresh
    have hempty : m.registeredIds session.user = ∅ := by
      apply Finset.eq_empty_of_forall_notMem
      intro id hid
      exact hnone id ((h.registered _ _).mp hid)
    have hroom : (m.registerClient session.user (a ++ ":" ++ b)).isSome = true := by
      rw [isSome_registerClient]
      intro ids hids
      rw [registeredIds, hids, Option.getD_some] at hempty
      rw [hempty, Finset.card_empty]
      exact hone
    obtain ⟨m', hm'⟩ := Option.isSome_iff_exists.mp hroom
    have hadd : m'.sessions.addElement (a ++ ":" ++ b) ⟨session, info⟩ =
        (true, m'.sessions.set (a ++ ":" ++ b) (some ⟨some ⟨session, info⟩, 0⟩)) := by
      rw [SafeMap.addElement, registerClient_sessions hm', hfresh]
    simp only [createSession, hm', hadd]
    exact ⟨_, rfl⟩

/-- Readers do not matter for the books. -/
theorem Tracked.congr (h : m.Tracked) {sessions : SafeMap String WebSession UInt32}
    (hitem : ∀ id, sessions.item? id = m.sessions.item? id)
    (helem : ∀ id, sessions.element id = none ↔ m.sessions.element id = none) :
    { m with sessions := sessions }.Tracked := by
  constructor
  · intro user id
    show _ ↔ (∃ w, sessions.item? id = some w ∧ _) ∨ _
    rw [hitem]
    exact h.registered user id
  · exact h.limit
  · intro id hid hnone
    exact h.dying id (mt (helem id).mpr hid) ((hitem id).symm.trans hnone)
  · intro id destroyer hwait
    obtain ⟨hid, hnone⟩ := h.waits id destroyer hwait
    exact ⟨mt (helem id).mp hid, (hitem id).trans hnone⟩

/-! ### Making a session -/

theorem registerClient_some {m' : WebSessionsManager} {user id : String}
    (h : m.registerClient user id = some m') :
    m'.registeredIds = Function.update m.registeredIds user (insert id (m.registeredIds user)) ∧
    m'.waiting = m.waiting ∧ m'.maxSessionsPerUser = m.maxSessionsPerUser ∧
    (m.registeredIds user = ∅ ∨ (m.registeredIds user).card < m.maxSessionsPerUser) := by
  have hupdate : ∀ ids : Finset String,
      (fun u => (Function.update m.sessionClientInfo user (some ids) u).getD ∅) =
        Function.update m.registeredIds user ids := by
    intro ids
    funext u
    by_cases hu : u = user
    · rw [hu, Function.update_self, Function.update_self, Option.getD_some]
    · rw [Function.update_of_ne hu, Function.update_of_ne hu]
      rfl
  unfold registerClient at h
  cases hinfo : m.sessionClientInfo user with
  | none =>
      have hempty : m.registeredIds user = ∅ := by
        rw [registeredIds, hinfo]
        rfl
      rw [hinfo] at h
      cases h
      rw [hempty]
      exact ⟨hupdate {id}, rfl, rfl, Or.inl rfl⟩
  | some ids =>
      have hids : m.registeredIds user = ids := by
        rw [registeredIds, hinfo]
        rfl
      simp only [hinfo] at h
      by_cases hle : m.maxSessionsPerUser ≤ ids.card
      · rw [if_pos hle] at h
        cases h
      · rw [if_neg hle] at h
        cases h
        rw [hids]
        exact ⟨hupdate (insert id ids), rfl, rfl, Or.inr (Nat.lt_of_not_le hle)⟩

/-- A session was entered under a new id, and the id for its user. -/
theorem Tracked.enter (h : m.Tracked) {m' : WebSessionsManager} {session : Session}
    {info : Json.Members} {new : String} (hfree : m.sessions.element new = none)
    (hsessions : m'.sessions = m.sessions.set new (some ⟨some ⟨session, info⟩, 0⟩))
    (hids : m'.registeredIds = Function.update m.registeredIds session.user
      (insert new (m.registeredIds session.user)))
    (hwaiting : m'.waiting = m.waiting) (hmax : m'.maxSessionsPerUser = m.maxSessionsPerUser)
    (hroom : (m.registeredIds session.user).card < m.maxSessionsPerUser) : m'.Tracked := by
  have hunused : m.session? new = none := by
    rw [session?, SafeMap.item?, hfree]
    rfl
  have hnone : m.waiting new = none := by
    cases hwait : m.waiting new with
    | none => rfl
    | some destroyer => exact absurd hfree (h.waits new _ hwait).1
  have hsession : ∀ id, m'.session? id =
      if id = new then some ⟨session, info⟩ else m.session? id := by
    intro id
    rw [session?, hsessions, SafeMap.item?_set]
    rfl
  constructor
  · intro user id
    rw [hids, Present, hsession, hwaiting]
    by_cases hid : id = new
    · subst hid
      have hother : id ∉ m.registeredIds user := by
        rw [h.registered, Present, hunused, hnone]
        rintro (⟨w, hw, -⟩ | hw)
        · cases hw
        · cases hw
      rw [if_pos rfl, hnone]
      by_cases huser : user = session.user
      · rw [huser, Function.update_self]
        exact ⟨fun _ => Or.inl ⟨_, rfl, rfl⟩, fun _ => Finset.mem_insert_self _ _⟩
      · rw [Function.update_of_ne huser]
        constructor
        · intro hmem
          exact absurd hmem hother
        · rintro (⟨w, hw, hu⟩ | hw)
          · cases hw
            exact absurd hu.symm huser
          · cases hw
    · rw [if_neg hid]
      have hmem : id ∈ Function.update m.registeredIds session.user
          (insert new (m.registeredIds session.user)) user ↔ id ∈ m.registeredIds user := by
        by_cases huser : user = session.user
        · rw [huser, Function.update_self, Finset.mem_insert, or_iff_right hid]
        · rw [Function.update_of_ne huser]
      rw [hmem]
      exact h.registered user id
  · intro user
    rw [hids, hmax]
    by_cases huser : user = session.user
    · rw [huser, Function.update_self]
      exact (Finset.card_insert_le _ _).trans hroom
    · rw [Function.update_of_ne huser]
      exact h.limit user
  · intro id helem hgone
    rw [hsession] at hgone
    rw [hsessions, SafeMap.element_set] at helem
    rw [hwaiting]
    by_cases hid : id = new
    · rw [if_pos hid] at hgone
      cases hgone
    · rw [if_neg hid] at hgone helem
      exact h.dying id helem hgone
  · intro id destroyer hwait
    rw [hwaiting] at hwait
    have hid : id ≠ new := by
      rintro rfl
      rw [hnone] at hwait
      cases hwait
    rw [hsession, hsessions, SafeMap.element_set, if_neg hid, if_neg hid]
    exact h.waits id destroyer hwait

theorem Tracked.createSession (h : m.Tracked) {random : Option (String × String)}
    (session : Session) (info : Json.Members) (hone : 1 ≤ m.maxSessionsPerUser)
    (hfresh : ∀ ab ∈ random, m.sessions.element (ab.1 ++ ":" ++ ab.2) = none) :
    (((m.createSession random session info).map (·.2.2)).getD m).Tracked := by
  cases random with
  | none => exact h
  | some ab =>
      obtain ⟨a, b⟩ := ab
      have hfree := hfresh (a, b) rfl
      simp only at hfree
      cases hreg : m.registerClient session.user (a ++ ":" ++ b) with
      | none =>
          simp only [WebSessionsManager.createSession, hreg]
          exact h
      | some m' =>
          obtain ⟨hids, hwaiting, hmax, hroom⟩ := registerClient_some hreg
          have hsessions := registerClient_sessions hreg
          have hadd : m'.sessions.addElement (a ++ ":" ++ b) ⟨session, info⟩ =
              (true, m.sessions.set (a ++ ":" ++ b) (some ⟨some ⟨session, info⟩, 0⟩)) := by
            rw [SafeMap.addElement, hsessions, hfree]
          simp only [WebSessionsManager.createSession, hreg, hadd, Option.map_some,
            Option.getD_some]
          refine h.enter hfree rfl hids hwaiting hmax ?_
          rcases hroom with hempty | hlt
          · rw [hempty, Finset.card_empty]
            exact hone
          · exact hlt

/-! ### Destroying a session -/

/-- The entry of a session is gone, and nobody waits for its readers: its id is found. -/
theorem Tracked.unregisterClient (h : m.Tracked) {n : WebSessionsManager} {user gone : String}
    (hp : m.Present user gone) (hinfo : n.sessionClientInfo = m.sessionClientInfo)
    (hmax : n.maxSessionsPerUser = m.maxSessionsPerUser)
    (helem : ∀ id, n.sessions.element id = if id = gone then none else m.sessions.element id)
    (hwaiting : ∀ id, n.waiting id = if id = gone then none else m.waiting id) :
    (n.unregisterClient user gone).1 = .destroyed ∧
      (n.unregisterClient user gone).2.Tracked := by
  have hmem := (h.registered user gone).mpr hp
  obtain ⟨ids, hids⟩ : ∃ ids, m.sessionClientInfo user = some ids := by
    cases hnone : m.sessionClientInfo user with
    | none =>
        rw [registeredIds, hnone] at hmem
        cases hmem
    | some ids => exact ⟨ids, rfl⟩
  have hin : gone ∈ ids := by
    rw [registeredIds, hids] at hmem
    exact hmem
  have hunregister : n.unregisterClient user gone = (.destroyed,
      { n with
        sessionClientInfo := Function.update m.sessionClientInfo user
          (if ids.erase gone = ∅ then none else some (ids.erase gone)) }) := by
    unfold WebSessionsManager.unregisterClient
    rw [hinfo, hids]
    exact if_pos hin
  rw [hunregister]
  refine ⟨rfl, ?_⟩
  have hregistered : ∀ u, ((Function.update m.sessionClientInfo user
      (if ids.erase gone = ∅ then none else some (ids.erase gone))) u).getD ∅ =
      (m.registeredIds u).erase gone := by
    intro u
    by_cases hu : u = user
    · rw [hu, Function.update_self, registeredIds, hids, Option.getD_some]
      by_cases hempty : ids.erase gone = ∅
      · rw [if_pos hempty, hempty]
        rfl
      · rw [if_neg hempty]
        rfl
    · rw [Function.update_of_ne hu, Finset.erase_eq_of_notMem]
      · rfl
      · -- A session has one user.
        intro hother
        exact hu (h.present_unique ((h.registered u gone).mp hother) hp)
  have hsession : ∀ id, n.session? id = if id = gone then none else m.session? id := by
    intro id
    rw [session?, SafeMap.item?, helem]
    by_cases hid : id = gone
    · rw [if_pos hid, if_pos hid]
      rfl
    · rw [if_neg hid, if_neg hid]
      rfl
  constructor
  · intro u id
    show id ∈ Option.getD _ ∅ ↔ (∃ w, n.session? id = some w ∧ _) ∨ n.waiting id = _
    rw [hregistered, Finset.mem_erase, hsession, hwaiting]
    by_cases hid : id = gone
    · rw [if_pos hid, if_pos hid]
      constructor
      · rintro ⟨hne, -⟩
        exact absurd hid hne
      · rintro (⟨w, hw, -⟩ | hw)
        · cases hw
        · cases hw
    · rw [if_neg hid, if_neg hid, and_iff_right hid]
      exact h.registered u id
  · intro u
    show (Option.getD _ ∅ : Finset String).card ≤ n.maxSessionsPerUser
    rw [hregistered, hmax]
    exact (Finset.card_erase_le).trans (h.limit u)
  · intro id hid hnone
    change n.sessions.element id ≠ none at hid
    change n.session? id = none at hnone
    show ∃ u, n.waiting id = _
    rw [helem] at hid
    rw [hsession] at hnone
    rw [hwaiting]
    by_cases hgone : id = gone
    · rw [if_pos hgone] at hid
      exact absurd rfl hid
    · rw [if_neg hgone] at hid hnone ⊢
      exact h.dying id hid hnone
  · intro id destroyer hwait
    change n.waiting id = some destroyer at hwait
    show n.sessions.element id ≠ none ∧ n.session? id = none
    rw [hwaiting] at hwait
    rw [helem, hsession]
    by_cases hgone : id = gone
    · rw [if_pos hgone] at hwait
      cases hwait
    · rw [if_neg hgone] at hwait ⊢
      rw [if_neg hgone]
      exact h.waits id destroyer hwait

/-- The destruction of a session waits for its readers: the session stays in the books. -/
theorem Tracked.await (h : m.Tracked) {sessions : SafeMap String WebSession UInt32} {gone : String}
    {w : WebSession} {e : MapElement WebSession UInt32} (hw : m.session? gone = some w)
    (helem : ∀ id, sessions.element id =
      if id = gone then some ⟨none, e.numReaders⟩ else m.sessions.element id) :
    { m with
      sessions := sessions
      waiting := Function.update m.waiting gone
        (some (.destroySession w.authSession.user)) }.Tracked := by
  have hitem : ∀ id, sessions.item? id = if id = gone then none else m.session? id := by
    intro id
    rw [SafeMap.item?, helem]
    by_cases hid : id = gone
    · rw [if_pos hid, if_pos hid]
      rfl
    · rw [if_neg hid, if_neg hid]
      rfl
  have hnone : m.waiting gone = none := by
    cases hwait : m.waiting gone with
    | none => rfl
    | some destroyer =>
        have hgone := (h.waits _ _ hwait).2
        rw [hw] at hgone
        cases hgone
  constructor
  · intro user id
    have hregistered := h.registered user id
    change id ∈ m.registeredIds user ↔ (∃ v, sessions.item? id = some v ∧ _) ∨
      Function.update m.waiting gone _ id = _
    rw [hregistered, hitem, Present]
    by_cases hid : id = gone
    · rw [hid, hw, hnone, if_pos rfl, Function.update_self]
      constructor
      · rintro (⟨v, hv, rfl⟩ | hv)
        · cases hv
          exact Or.inr rfl
        · cases hv
      · rintro (⟨v, hv, -⟩ | hv)
        · cases hv
        · cases hv
          exact Or.inl ⟨w, rfl, rfl⟩
    · rw [if_neg hid, Function.update_of_ne hid]
  · exact h.limit
  · intro id hid hgone
    change sessions.item? id = none at hgone
    show ∃ user, Function.update m.waiting gone _ id = _
    by_cases heq : id = gone
    · rw [heq, Function.update_self]
      exact ⟨_, rfl⟩
    · rw [hitem, if_neg heq] at hgone
      change sessions.element id ≠ none at hid
      rw [helem, if_neg heq] at hid
      rw [Function.update_of_ne heq]
      exact h.dying id hid hgone
  · intro id destroyer hwait
    change Function.update m.waiting gone _ id = some destroyer at hwait
    show sessions.element id ≠ none ∧ sessions.item? id = none
    rw [helem, hitem]
    by_cases heq : id = gone
    · rw [if_pos heq, if_pos heq]
      exact ⟨Option.some_ne_none _, rfl⟩
    · rw [Function.update_of_ne heq] at hwait
      rw [if_neg heq, if_neg heq]
      exact h.waits id destroyer hwait

/-- An entry that is put in takes no other one away. -/
theorem element_of_set {s : SafeMap String WebSession UInt32} {key id : String}
    {entry : MapElement WebSession UInt32} (hnone : (s.set key (some entry)).element id = none) :
    s.element id = none := by
  rw [SafeMap.element_set] at hnone
  by_cases hid : id = key
  · rw [if_pos hid] at hnone
    cases hnone
  · rwa [if_neg hid] at hnone

theorem element_openElement_iff (s : SafeMap String WebSession UInt32) (key id : String) :
    (s.openElement key).2.element id = none ↔ s.element id = none := by
  refine ⟨fun hnone => ?_, fun hnone => SafeMap.element_eq_none_openElement hnone key⟩
  unfold SafeMap.openElement at hnone
  split at hnone
  · exact element_of_set hnone
  · exact hnone

theorem element_releaseElement_iff (s : SafeMap String WebSession UInt32) (key id : String) :
    (s.releaseElement key).2.element id = none ↔ s.element id = none := by
  refine ⟨fun hnone => ?_, fun hnone => SafeMap.element_eq_none_releaseElement hnone key⟩
  unfold SafeMap.releaseElement at hnone
  split at hnone
  · exact hnone
  · split_ifs at hnone
    · exact hnone
    · exact element_of_set hnone

theorem Tracked.visited (h : m.Tracked) (key : String) :
    { m with sessions := m.visited key }.Tracked := by
  refine h.congr (fun id => session?_visited m key id) (fun id => ?_)
  unfold WebSessionsManager.visited
  rw [element_releaseElement_iff, element_openElement_iff]

/-- The session is destroyed and its id taken away, or its destruction waits. -/
theorem Tracked.destroyReleased (h : m.Tracked) {sessionID : String} {w : WebSession}
    (hw : m.session? sessionID = some w) :
    (m.destroyReleased w.authSession.user sessionID).1 ≠ .unregistered ∧
      (m.destroyReleased w.authSession.user sessionID).2.Tracked := by
  obtain ⟨k, helem⟩ := SafeMap.element_of_item? hw
  have hnone : m.waiting sessionID = none := by
    cases hwait : m.waiting sessionID with
    | none => rfl
    | some destroyer =>
        have hgone := (h.waits _ _ hwait).2
        rw [hw] at hgone
        cases hgone
  simp only [WebSessionsManager.destroyReleased, SafeMap.destroyElement, helem]
  by_cases hk : k = 0
  · rw [if_pos hk]
    obtain ⟨hresult, htracked⟩ := h.unregisterClient
      (n := { m with sessions := m.sessions.set sessionID none })
      (Or.inl ⟨w, hw, rfl⟩) rfl rfl (fun id => SafeMap.element_set _ _ _ _) (fun id => by
        by_cases hid : id = sessionID
        · rw [if_pos hid, hid]
          exact hnone
        · rw [if_neg hid])
    refine ⟨?_, htracked⟩
    rw [hresult]
    decide
  · rw [if_neg hk]
    refine ⟨(by intro hresult; cases hresult), ?_⟩
    exact h.await (e := ⟨none, k⟩) hw (fun id => SafeMap.element_set _ _ _ _)

/-- `destroySession`: nothing was found, or the release throws, or the session is destroyed and
its id taken away, or its destruction waits. -/
theorem Tracked.destroySession (h : m.Tracked) (sessionID : String) :
    (m.destroySession sessionID).1 ≠ .unregistered ∧
      (m.destroySession sessionID).2.Tracked := by
  unfold WebSessionsManager.destroySession
  cases hw : m.session? sessionID with
  | none =>
      rw [SafeMap.openElement_of_none hw]
      exact ⟨(by intro hresult; cases hresult), h⟩
  | some w =>
      have hvisited := h.visited sessionID
      have hin := (session?_visited m sessionID sessionID).trans hw
      rw [SafeMap.openElement_eq_some hw]
      simp only
      unfold WebSessionsManager.visited at hvisited hin
      cases hrel : (m.sessions.openElement sessionID).2.releaseElement sessionID with
      | mk result sessions =>
          rw [hrel] at hvisited hin
          cases result with
          | invalidClose => exact ⟨(by intro hresult; cases hresult), hvisited⟩
          | released => exact hvisited.destroyReleased hin
          | notFound => exact hvisited.destroyReleased hin

/-- A destruction that has waited takes the id away. -/
theorem Tracked.wake (h : m.Tracked) (key : String) :
    m.wakeResult key ≠ some .unregistered ∧ (m.wake key).Tracked := by
  unfold WebSessionsManager.wake wakeResult
  cases hwait : m.waiting key with
  | none => exact ⟨(by intro hresult; cases hresult), h⟩
  | some destroyer =>
      obtain ⟨helem, hgone⟩ := h.waits key destroyer hwait
      obtain ⟨user, huser⟩ := h.dying key helem hgone
      rw [hwait] at huser
      cases huser
      cases hfinish : m.sessions.finishDestroy key with
      | none => exact ⟨(by intro hresult; cases hresult), h⟩
      | some sessions =>
          obtain ⟨-, rfl⟩ := SafeMap.finishDestroy_of_some hfinish
          obtain ⟨hresult, htracked⟩ := h.unregisterClient
            (n := { m with
              sessions := m.sessions.set key none
              waiting := Function.update m.waiting key none })
            (Or.inr hwait) rfl rfl (fun id => SafeMap.element_set _ _ _ _)
            (fun id => Function.update_apply _ _ _ _)
          refine ⟨?_, htracked⟩
          simp only [hresult]
          decide

/-! ### The other operations -/

theorem Tracked.openSession (h : m.Tracked) (sessionID : String) (now : ℤ) :
    (m.openSession sessionID now).2.Tracked := by
  unfold WebSessionsManager.openSession
  split
  · exact h
  · rename_i xs sessions hopen
    have hsessions : sessions = (m.sessions.openElement sessionID).2 := by rw [hopen]
    subst hsessions
    exact h.congr (SafeMap.item?_openElement _ _) (element_openElement_iff _ _)

/-- The garbage collector leaves alone what has not expired. -/
theorem Tracked.gcVisit (h : m.Tracked) {key : String} {now : ℤ}
    (hlive : ∀ w ∈ m.session? key,
      w.authSession.isLastActivityExpired m.maxInactiveSeconds now = false) :
    (m.gcVisit key now).Tracked := by
  unfold WebSessionsManager.gcVisit
  cases hw : m.session? key with
  | none =>
      rw [SafeMap.openElement_of_none hw]
      exact h
  | some w =>
      have hvisited := h.visited key
      rw [SafeMap.openElement_eq_some hw]
      simp only [hlive w hw]
      unfold WebSessionsManager.visited at hvisited
      split
      · rename_i hrel
        rw [hrel] at hvisited
        exact hvisited
      · rename_i hrel
        rw [hrel] at hvisited
        exact hvisited

/-! ## Over a run -/

theorem Tracked.step (h : m.Tracked) {op : SessionOp} (hop : m.KeepsBooks op)
    {m' : WebSessionsManager} {result : Option DestroyResult}
    (hstep : m.sessionStep op = some (m', result)) :
    m'.Tracked ∧ result ≠ some .unregistered := by
  cases op with
  | createSession random session info =>
      cases hstep
      exact ⟨h.createSession session info hop.2 hop.1, (Option.some_ne_none _).symm⟩
  | destroySession sessionID =>
      cases hstep
      obtain ⟨hresult, htracked⟩ := h.destroySession sessionID
      exact ⟨htracked, fun hsome => hresult (Option.some.inj hsome)⟩
  | openSession sessionID now =>
      cases hstep
      exact ⟨h.openSession sessionID now, (Option.some_ne_none _).symm⟩
  | releaseSession sessionID =>
      cases hstep
      exact ⟨h.congr (SafeMap.item?_releaseElement _ _) (element_releaseElement_iff _ _),
        (Option.some_ne_none _).symm⟩
  | gcVisit key now =>
      cases hstep
      exact ⟨h.gcVisit hop.2, (Option.some_ne_none _).symm⟩
  | wake key =>
      cases hstep
      obtain ⟨hresult, htracked⟩ := h.wake key
      exact ⟨htracked, hresult⟩

/-- A manager before its first session. -/
def makeSessionsManager (maxInactiveSeconds maxSessionsPerUser : UInt32) : WebSessionsManager :=
  { maxInactiveSeconds := maxInactiveSeconds.toNat
    maxSessionsPerUser := maxSessionsPerUser.toNat }

theorem tracked_make (maxInactiveSeconds maxSessionsPerUser : UInt32) :
    (makeSessionsManager maxInactiveSeconds maxSessionsPerUser).Tracked := by
  constructor
  · intro user id
    constructor
    · intro hid
      cases hid
    · rintro (⟨w, hw, -⟩ | hw)
      · cases hw
      · cases hw
  · intro user
    exact Nat.zero_le _
  · intro id helem
    exact absurd rfl helem
  · intro id destroyer hwait
    cases hwait

/-- **The books match the sessions.**  As long as the garbage collector finds nothing to collect,
and sessions are made under a limit of at least one with new ids, after each operation the ids of
each user are those of his sessions, and no session is found unregistered. -/
theorem sessions_booked (maxInactiveSeconds maxSessionsPerUser : UInt32) (ops : List SessionOp)
    (h : Guarded sessionStep KeepsBooks
      (makeSessionsManager maxInactiveSeconds maxSessionsPerUser) ops) :
    ∀ t ∈ transitions sessionStep (makeSessionsManager maxInactiveSeconds maxSessionsPerUser) ops,
      t.after.Booked ∧ t.output ≠ some .unregistered := by
  intro t ht
  have hinv := h.invariant Tracked (fun m op m' result htracked hop hstep =>
    (htracked.step hop hstep).1) (tracked_make ..) t ht
  obtain ⟨htracked, hresult⟩ := hinv.1.step (h t ht) (step_of_mem_transitions ht)
  exact ⟨htracked.booked, hresult⟩

/-- A session of a user that was active at second 0. -/
def bookedSession : Session where
  jwtAuthenticatedInfo := {}
  user := "alice"
  domain := ""
  impersonator := ""
  firstActivity := 0
  lastActivity := 0

/-- A session that is open while it is destroyed. -/
theorem sessions_booked_open :
    ∃ t₀ t₁ t₂ t₃ t₄ t₅, transitions sessionStep (makeSessionsManager 900 1)
        [.createSession (some ("AAAAAAAAAAAA", "BBBBBBBBBBBB")) bookedSession [],
          .openSession "AAAAAAAAAAAA:BBBBBBBBBBBB" 10,
          .gcVisit "AAAAAAAAAAAA:BBBBBBBBBBBB" 20,
          .destroySession "AAAAAAAAAAAA:BBBBBBBBBBBB",
          .releaseSession "AAAAAAAAAAAA:BBBBBBBBBBBB",
          .wake "AAAAAAAAAAAA:BBBBBBBBBBBB"] =
          [t₀, t₁, t₂, t₃, t₄, t₅] ∧
      t₃.output = some .waiting ∧ t₃.after.Booked ∧
      t₅.output = some .destroyed ∧ t₅.after.Booked := by
  refine ⟨_, _, _, _, _, _, rfl, ?_⟩
  have hall := sessions_booked 900 1
    [.createSession (some ("AAAAAAAAAAAA", "BBBBBBBBBBBB")) bookedSession [],
      .openSession "AAAAAAAAAAAA:BBBBBBBBBBBB" 10,
      .gcVisit "AAAAAAAAAAAA:BBBBBBBBBBBB" 20,
      .destroySession "AAAAAAAAAAAA:BBBBBBBBBBBB",
      .releaseSession "AAAAAAAAAAAA:BBBBBBBBBBBB",
      .wake "AAAAAAAAAAAA:BBBBBBBBBBBB"] ?_
  · exact ⟨rfl, (hall _ (List.getElem_mem (n := 3) (by decide))).1, rfl,
      (hall _ (List.getElem_mem (n := 5) (by decide))).1⟩
  · have hrun : transitions sessionStep (makeSessionsManager 900 1)
        [.createSession (some ("AAAAAAAAAAAA", "BBBBBBBBBBBB")) bookedSession [],
          .openSession "AAAAAAAAAAAA:BBBBBBBBBBBB" 10,
          .gcVisit "AAAAAAAAAAAA:BBBBBBBBBBBB" 20,
          .destroySession "AAAAAAAAAAAA:BBBBBBBBBBBB",
          .releaseSession "AAAAAAAAAAAA:BBBBBBBBBBBB",
          .wake "AAAAAAAAAAAA:BBBBBBBBBBBB"] =
        [⟨_, _, _, _⟩, ⟨_, _, _, _⟩, ⟨_, _, _, _⟩, ⟨_, _, _, _⟩, ⟨_, _, _, _⟩, ⟨_, _, _, _⟩] := rfl
    rw [Guarded, hrun]
    simp only [List.forall_mem_cons]
    refine ⟨⟨?_, by decide⟩, ⟨trivial, trivial⟩, ⟨trivial, ?_⟩, ⟨trivial, trivial⟩,
      ⟨trivial, trivial⟩, ⟨trivial, trivial⟩, fun t ht => by cases ht⟩
    · intro ab hab
      rfl
    · intro w hw
      cases hw
      decide

/-- A session expires and is collected: its id stays with the user. -/
theorem collected_session_registered :
    ¬ ∀ ops : List SessionOp,
      Guarded sessionStep NewId (makeSessionsManager 900 100) ops →
      ∀ t ∈ transitions sessionStep (makeSessionsManager 900 100) ops,
        t.after.Booked ∧ t.output ≠ some .unregistered := by
  intro hclaim
  have hrun : transitions sessionStep (makeSessionsManager 900 100)
      [.createSession (some ("AAAAAAAAAAAA", "BBBBBBBBBBBB")) bookedSession [],
        .gcVisit "AAAAAAAAAAAA:BBBBBBBBBBBB" 1000] =
      [⟨_, _, _, _⟩, ⟨_, _, _, _⟩] := rfl
  have hlast := hclaim [.createSession (some ("AAAAAAAAAAAA", "BBBBBBBBBBBB")) bookedSession [],
    .gcVisit "AAAAAAAAAAAA:BBBBBBBBBBBB" 1000]
  rw [Guarded, hrun] at hlast
  simp only [List.forall_mem_cons] at hlast
  obtain ⟨-, ⟨hbooked, -⟩, -⟩ := hlast
    ⟨fun ab hab => rfl, trivial, fun t ht => by cases ht⟩
  rcases (hbooked.registered "alice" "AAAAAAAAAAAA:BBBBBBBBBBBB").mp (by decide) with
    ⟨w, hw, -⟩ | hw
  · cases hw
  · cases hw

end WebSessionsManager

end Mantids
