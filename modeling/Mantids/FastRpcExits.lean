/-
# What a call leaves behind

A call opens the connection, registers its request and takes the socket mutex, and each of the
three has to be undone on every way out.  The way out after a failed transmission undoes none of
them.

* `Clean` — what a call that has returned should leave;
* `Transmits` — the condition: no transmission fails;
* `Tidy` — the invariant of the runs in which no transmission fails;
* `clean_iff_transmits` — the calls of a run leave the connection clean exactly in these runs.
-/
import Mantids.FastRpcAnswers

namespace Mantids

namespace SafeMap

variable {κ ι : Type*} [DecidableEq κ]

/-- An opened item has one more reader. -/
theorem readers_of_openElement_some {m m' : SafeMap κ ι ℕ} {key : κ} {item : ι}
    (h : m.openElement key = (some item, m')) : m'.readers key = m.readers key + 1 := by
  cases hitem : m.item? key with
  | none =>
    rw [openElement_of_none hitem] at h
    cases h
  | some item =>
    rw [openElement_of_some hitem] at h
    cases h
    rw [readers_record, readers_set, if_pos rfl]
    rfl

theorem eq_of_openElement_none {m m' : SafeMap κ ι ℕ} {key : κ}
    (h : m.openElement key = (none, m')) : m' = m := by
  cases hitem : m.item? key with
  | none =>
    rw [openElement_of_none hitem] at h
    cases h
    rfl
  | some item =>
    rw [openElement_of_some hitem] at h
    cases h

/-- A reader that leaves is counted off. -/
theorem releaseElement_readers {m : SafeMap κ ι ℕ} {key : κ} (h : 0 < m.readers key) :
    (m.releaseElement key).1 = .released ∧
      (m.releaseElement key).2.readers key + 1 = m.readers key := by
  obtain ⟨item, -, hrelease⟩ := releaseElement_of_readers h.ne'
  rw [hrelease, readers_record, readers_set, if_pos rfl]
  exact ⟨rfl, Nat.sub_add_cancel h⟩

end SafeMap

namespace FastRPC3

open Run SocketStream.Writer

variable {env : Env} {s s' : RpcState}

/-! ## The condition -/

/-- The transmission of a call gets through: the name of the method is within the limit of its
field, and none of the writes fails. -/
def Transmits (s : RpcState) : RpcAction → Prop
  | .go i => ∀ c ∈ s.calls[i]?, c.pc = .sending → c.args.methodName.length ≤ 254 ∧
      s.connection.stream.Working
        (queryWrites c.args.methodName c.args.output c.args.extraJWTTokenAuth)
  | _ => True

/-- The call has left the connection as it found it. -/
structure Clean (s : RpcState) (i : ℕ) (c : ExecCall) : Prop where
  socketMutex : s.connection.socketMutex ≠ some (.call i)
  pendingRequests : c.requestId ∉ s.connection.pendingRequests
  answers : s.connection.answers c.requestId = none
  executionStatus : s.connection.executionStatus c.requestId = none
  /-- What it opened it has released, and not more than once. -/
  released : c.releases = c.opens
  once : c.opens ≤ 1

/-! ## Where a call is -/

namespace Pc

/-- The call has the socket mutex. -/
def holdsSocket : Pc → Bool
  | sending | sent => true
  | _ => false

/-- The request of the call is registered. -/
def isRegistered : Pc → Bool
  | registered | sending | sent | beforeWait | waiting _ | left => true
  | _ => false

/-- The call has the connection open. -/
def isOpen : Pc → Bool
  | opening _ | returned => false
  | _ => true

end Pc

/-- A notification changes nothing that is the same for all waits. -/
theorem notify_pc {f : Pc → Bool} (hf : ∀ notified, f (.waiting true) = f (.waiting notified))
    (c : ExecCall) : f c.notify.pc = f c.pc := by
  unfold ExecCall.notify
  split
  · rename_i notified hpc
    rw [hpc]
    exact hf notified
  · rfl

@[simp] theorem holdsSocket_notify (c : ExecCall) : c.notify.pc.holdsSocket = c.pc.holdsSocket :=
  notify_pc (fun _ => rfl) c

@[simp] theorem isRegistered_notify (c : ExecCall) :
    c.notify.pc.isRegistered = c.pc.isRegistered :=
  notify_pc (fun _ => rfl) c

@[simp] theorem isOpen_notify (c : ExecCall) : c.notify.pc.isOpen = c.pc.isOpen :=
  notify_pc (fun _ => rfl) c

/-- What the place of a call says of its id and its counts. -/
structure Progress (env : Env) (c : ExecCall) : Prop where
  output : c.pc ≠ .returned → c.args.output.length ≤ env.config.maxMessageSize.toNat
  requestId : c.pc.isRegistered = true ∨ c.pc = .numbered → c.requestId ≠ 0
  opening : c.pc.isOpen = false → c.pc ≠ .returned → c.opens = 0 ∧ c.releases = 0
  isOpen : c.pc.isOpen = true → c.opens = 1 ∧ c.releases = 0
  returned : c.pc = .returned → c.releases = c.opens ∧ c.opens ≤ 1

theorem Progress.notify {c : ExecCall} (h : Progress env c) : Progress env c.notify := by
  unfold ExecCall.notify
  split
  · rename_i notified hpc
    refine ⟨fun _ => h.output (by rw [hpc]; simp), fun _ => h.requestId (.inl (by rw [hpc]; rfl)),
      ?_, fun _ => h.isOpen (by rw [hpc]; rfl), ?_⟩
    · simp [Pc.isOpen]
    · simp
  · exact h

/-- What a step of a call does with the socket mutex. -/
theorem go_socketMutex {m m' : SafeMap String Unit ℕ} {k k' : Connection} {i : ℕ} {c c' : ExecCall}
    (h : go env m k i c = some (m', k', c')) :
    (k'.socketMutex = k.socketMutex ∧ (c'.pc.holdsSocket = true → c.pc.holdsSocket = true) ∧
        (c.pc.holdsSocket = true → c.pc = .sending)) ∨
      (k.socketMutex = none ∧ k'.socketMutex = some (.call i) ∧ c'.pc.holdsSocket = true) ∨
      (c.pc.holdsSocket = true ∧ k'.socketMutex = none ∧ c'.pc.holdsSocket = false) := by
  cases goes_of_go h with
  | locks hpc hfree => exact .inr (.inl ⟨hfree, rfl, rfl⟩)
  | unlocks hpc => exact .inr (.inr ⟨by rw [hpc]; rfl, rfl, rfl⟩)
  | registers hpc => exact .inl (by simp [register, Pc.holdsSocket, hpc])
  | wakes hpc =>
    left
    unfold wake
    split
    · simp [Pc.holdsSocket, hpc]
    · split_ifs <;> simp [Pc.holdsSocket, hpc]
  | releases hpc => exact .inl (by simp [releaseConnection, Pc.holdsSocket, hpc])
  | _ hpc => exact .inl (by simp [Pc.holdsSocket, hpc])

/-- A call that wakes up stays registered, and keeps its id and its counts. -/
theorem wake_moves (k : Connection) (c : ExecCall) :
    (wake k c).args = c.args ∧ ((wake k c).opens = c.opens ∧ (wake k c).releases = c.releases) ∧
      (wake k c).requestId = c.requestId ∧ (wake k c).pc.isRegistered = true ∧
      (wake k c).pc.isOpen = true := by
  unfold wake
  split
  · exact ⟨rfl, ⟨rfl, rfl⟩, rfl, rfl, rfl⟩
  · split_ifs
    · exact ⟨rfl, ⟨rfl, rfl⟩, rfl, rfl, rfl⟩
    · exact ⟨rfl, ⟨rfl, rfl⟩, rfl, rfl, rfl⟩

/-- What a step of a call whose transmission gets through does to its counts, the registration
and the readers. -/
structure GoTidy (env : Env) (m m' : SafeMap String Unit ℕ) (c c' : ExecCall) : Prop where
  progress : Progress env c'
  sent : c.pc = .sending → c'.pc = .sent
  registered : (c.pc.isRegistered = true ∧ c.pc ≠ .left) ∨ c.pc = .numbered →
    c'.pc.isRegistered = true
  readers : m'.readers env.connectionId + (if c.pc.isOpen = true then 1 else 0)
    = m.readers env.connectionId + (if c'.pc.isOpen = true then 1 else 0)

/-- A step that keeps a call in the middle of the work keeps its counts. -/
theorem Progress.moved {c c' : ExecCall} (h : Progress env c) (hopen : c.pc.isOpen = true)
    (hopen' : c'.pc.isOpen = true) (hargs : c'.args = c.args) (hopens : c'.opens = c.opens)
    (hreleases : c'.releases = c.releases)
    (hid : c'.pc.isRegistered = true ∨ c'.pc = .numbered → c'.requestId ≠ 0) : Progress env c' := by
  have hreturned : c.pc ≠ .returned := by
    intro hpc
    rw [hpc] at hopen
    cases hopen
  have hreturned' : c'.pc ≠ .returned := by
    intro hpc
    rw [hpc] at hopen'
    cases hopen'
  refine ⟨fun _ => hargs ▸ h.output hreturned, hid, ?_, ?_, fun hpc => absurd hpc hreturned'⟩
  · intro hclosed
    rw [hopen'] at hclosed
    cases hclosed
  · intro _
    rw [hopens, hreleases]
    exact h.isOpen hopen

theorem go_tidy {m m' : SafeMap String Unit ℕ} {k k' : Connection} {i : ℕ} {c c' : ExecCall}
    (hprogress : Progress env c) (hcounter : 1 ≤ k.requestIdCounter)
    (hreaders : c.pc.isOpen = true → 0 < m.readers env.connectionId)
    (hsends : c.pc = .sending → c.args.methodName.length ≤ 254 ∧
      k.stream.Working (queryWrites c.args.methodName c.args.output c.args.extraJWTTokenAuth))
    (h : go env m k i c = some (m', k', c')) : GoTidy env m m' c c' := by
  cases goes_of_go h with
  | opens hpc hopen =>
    obtain ⟨hopens, hreleases⟩ := hprogress.opening (by rw [hpc]; rfl) (by rw [hpc]; simp)
    have houtput := hprogress.output (by rw [hpc]; simp)
    refine ⟨⟨fun _ => houtput, ?_, ?_, ?_, ?_⟩, ?_, ?_, ?_⟩
    · simp [Pc.isRegistered]
    · simp [Pc.isOpen]
    · simp [hopens, hreleases]
    · simp
    · simp [hpc]
    · simp [hpc, Pc.isRegistered]
    · rw [hpc]
      exact SafeMap.readers_of_openElement_some hopen
  | givesUp hpc hopen =>
    obtain ⟨hopens, hreleases⟩ := hprogress.opening (by rw [hpc]; rfl) (by rw [hpc]; simp)
    refine ⟨⟨?_, ?_, ?_, ?_, ?_⟩, ?_, ?_, ?_⟩
    · simp
    · simp [Pc.isRegistered]
    · simp
    · simp [Pc.isOpen]
    · simp [hopens, hreleases]
    · simp [hpc]
    · simp [hpc, Pc.isRegistered]
    · simp [hpc, Pc.isOpen, SafeMap.eq_of_openElement_none hopen]
  | triesAgain hpc hopen =>
    obtain ⟨hopens, hreleases⟩ := hprogress.opening (by rw [hpc]; rfl) (by rw [hpc]; simp)
    have houtput := hprogress.output (by rw [hpc]; simp)
    refine ⟨⟨fun _ => houtput, ?_, ?_, ?_, ?_⟩, ?_, ?_, ?_⟩
    · simp [Pc.isRegistered]
    · simp [hopens, hreleases]
    · simp [Pc.isOpen]
    · simp
    · simp [hpc]
    · simp [hpc, Pc.isRegistered]
    · simp [hpc, Pc.isOpen, SafeMap.eq_of_openElement_none hopen]
  | numbers hpc =>
    refine ⟨hprogress.moved (by rw [hpc]; rfl) rfl rfl rfl rfl fun _ => ?_, ?_, ?_, ?_⟩
    · show k.requestIdCounter ≠ 0
      omega
    · simp [hpc]
    · simp [hpc, Pc.isRegistered]
    · rw [hpc]
      rfl
  | registers hpc =>
    have hid := hprogress.requestId (.inr hpc)
    refine ⟨hprogress.moved (by rw [hpc]; rfl) rfl rfl rfl rfl fun _ => hid, by simp [hpc],
      fun _ => rfl, ?_⟩
    rw [hpc]
    rfl
  | sendFails hpc hfails =>
    obtain ⟨hmethod, hworking⟩ := hsends hpc
    have hok := (writeQuery_ok_iff env.config (.ofNat c.requestId) c.args.methodName c.args.output
      c.args.extraJWTTokenAuth k.stream).mpr
      ⟨hmethod, hprogress.output (by rw [hpc]; simp), hworking⟩
    rw [hfails] at hok
    cases hok
  | sends hpc =>
    have hid := hprogress.requestId (.inl (by rw [hpc]; rfl))
    refine ⟨hprogress.moved (by rw [hpc]; rfl) rfl rfl rfl rfl fun _ => hid, fun _ => rfl,
      fun _ => rfl, ?_⟩
    rw [hpc]
    rfl
  | wakes hpc =>
    have hid := hprogress.requestId (.inl (by rw [hpc]; rfl))
    obtain ⟨hargs, hcounts, hrid, hregistered, hopen⟩ := wake_moves k c
    refine ⟨hprogress.moved (by rw [hpc]; rfl) hopen hargs hcounts.1 hcounts.2
      fun _ => by rw [hrid]; exact hid, by simp [hpc], fun _ => hregistered, ?_⟩
    rw [hpc, hopen]
    rfl
  | erases hpc =>
    refine ⟨hprogress.moved (by rw [hpc]; rfl) rfl rfl rfl rfl ?_, ?_, ?_, ?_⟩
    · simp [Pc.isRegistered]
    · simp [hpc]
    · simp [hpc]
    · rw [hpc]
      rfl
  | releases hpc =>
    obtain ⟨hopens, hreleases⟩ := hprogress.isOpen (by rw [hpc]; rfl)
    obtain ⟨hreleased, hcount⟩ := SafeMap.releaseElement_readers (hreaders (by rw [hpc]; rfl))
    unfold releaseConnection
    refine ⟨⟨?_, ?_, ?_, ?_, ?_⟩, ?_, ?_, ?_⟩
    · simp
    · simp [Pc.isRegistered]
    · simp
    · simp [Pc.isOpen]
    · simp [hreleased, hopens, hreleases]
    · simp [hpc]
    · simp [hpc, Pc.isRegistered]
    · rw [hpc]
      exact hcount
  | _ hpc =>
    -- It takes the mutex, unlocks it or begins to wait.
    have hid := hprogress.requestId (.inl (by rw [hpc]; rfl))
    refine ⟨hprogress.moved (by rw [hpc]; rfl) rfl rfl rfl rfl fun _ => hid, by simp [hpc],
      fun _ => rfl, ?_⟩
    rw [hpc]
    rfl

/-! ## The invariants -/

/-- A call between the lock and the unlock has the socket mutex. -/
def Held (s : RpcState) : Prop :=
  ∀ (i : ℕ) (c : ExecCall), s.calls[i]? = some c → c.pc.holdsSocket = true →
    s.connection.socketMutex = some (.call i)

theorem Held.congr (h : Held s)
    (hcalls : ∀ (i : ℕ) (c' : ExecCall), s'.calls[i]? = some c' → c'.pc.holdsSocket = true →
      ∃ c, s.calls[i]? = some c ∧ c.pc.holdsSocket = true)
    (hmutex : ∀ i, s.connection.socketMutex = some (.call i) →
      s'.connection.socketMutex = some (.call i)) : Held s' := by
  intro i c' hc' hholds
  obtain ⟨c, hc, hholds'⟩ := hcalls i c' hc' hholds
  exact hmutex i (h i c hc hholds')

theorem startCall_pc (env : Env) (args : CallArgs) :
    (startCall env args).pc.holdsSocket = false ∧ (startCall env args).pc.isOpen = false ∧
      (startCall env args).pc.isRegistered = false := by
  unfold startCall
  split_ifs <;> exact ⟨rfl, rfl, rfl⟩

/-- A call of the state after a start is an old one or the new one. -/
theorem getElem?_start {args : CallArgs} {i : ℕ} {c : ExecCall}
    (h : (s.calls ++ [startCall env args])[i]? = some c) :
    s.calls[i]? = some c ∨ c = startCall env args := by
  rw [List.getElem?_append] at h
  split_ifs at h
  · exact .inl h
  · exact .inr (List.mem_singleton.mp (List.mem_of_getElem? h))

theorem Held.step {a : RpcAction} (h : Held s) (hs : step env s a = some (s', ())) : Held s' := by
  cases step_kind hs with
  | call args =>
    refine h.congr (fun i c' hc' hholds => ?_) fun _ hi => hi
    obtain hold | rfl := getElem?_start hc'
    · exact ⟨c', hold, hholds⟩
    · rw [(startCall_pc env args).1] at hholds
      cases hholds
  | @go i c c' m k hc hgo =>
    intro j d hd hholds
    rw [getElem?_set_of_some hc] at hd
    show k.socketMutex = some (.call j)
    obtain ⟨hsame, hback, -⟩ | ⟨hfree, hlocked, -⟩ | ⟨hheld, -, hno⟩ := go_socketMutex hgo
    · rw [hsame]
      split_ifs at hd with hij
      · cases hd
        obtain rfl := hij
        exact h _ c hc (hback hholds)
      · exact h j d hd hholds
    · -- Nobody else is between the lock and the unlock when the mutex is free.
      split_ifs at hd with hij
      · obtain rfl := hij
        exact hlocked
      · have hother := h j d hd hholds
        rw [hfree] at hother
        cases hother
    · split_ifs at hd with hij
      · cases hd
        rw [hno] at hholds
        cases hholds
      · have hother := h j d hd hholds
        rw [h i c hc hheld] at hother
        cases hother
        exact absurd rfl hij
  | @timeOut i c notified hc hpc =>
    refine h.congr (fun j d hd hholds => ?_) fun _ hi => hi
    rw [getElem?_set_of_some hc] at hd
    split_ifs at hd with hij
    · cases hd
      cases hholds
    · exact ⟨d, hd, hholds⟩
  | stored hpending hparse =>
    refine h.congr (fun j d hd hholds => ?_) fun _ hi => hi
    obtain ⟨c, hc, rfl⟩ := getElem?_map_notify hd
    exact ⟨c, hc, by rwa [holdsSocket_notify] at hholds⟩
  | malformed hpending hparse => exact h.congr (fun j d hd hholds => ⟨d, hd, hholds⟩) fun _ hi => hi
  | quiet hq =>
    refine h.congr (fun j d hd hholds => ?_) fun j hj => (hq.socketMutex j).mpr hj
    obtain hcalls | hcalls := hq.calls
    · rw [hcalls] at hd
      exact ⟨d, hd, hholds⟩
    · rw [hcalls] at hd
      obtain ⟨c, hc, rfl⟩ := getElem?_map_notify hd
      exact ⟨c, hc, by rwa [holdsSocket_notify] at hholds⟩

/-- The connection as long as no transmission has failed. -/
structure Tidy (env : Env) (s : RpcState) : Prop where
  numbered : Numbered s
  progress : ∀ {i : ℕ} {c : ExecCall}, s.calls[i]? = some c → Progress env c
  /-- A call that has the mutex is going to unlock it. -/
  socketMutex : ∀ {i : ℕ}, s.connection.socketMutex = some (.call i) →
    ∃ c, s.calls[i]? = some c ∧ c.pc.holdsSocket = true
  /-- A pending request is that of a call that is going to erase it. -/
  pendingRequests : ∀ {id : ℕ}, id ∈ s.connection.pendingRequests →
    ∃ (i : ℕ) (c : ExecCall), s.calls[i]? = some c ∧ c.requestId = id ∧ id ≠ 0 ∧
      c.pc.isRegistered = true
  records : ∀ {id : ℕ}, id ∉ s.connection.pendingRequests →
    s.connection.answers id = none ∧ s.connection.executionStatus id = none
  /-- The calls that have the connection open are among its readers. -/
  readers : s.calls.countP (·.pc.isOpen) ≤ s.connectionMapById.readers env.connectionId

theorem tidy_fresh (env : Env) (m : SafeMap String Unit ℕ) (w : SocketStream.Writer) :
    Tidy env (fresh m w) where
  numbered := numbered_fresh m w
  progress := by simp [fresh]
  socketMutex := by simp [fresh]
  pendingRequests := by simp [fresh]
  records := by simp [fresh]
  readers := by simp [fresh]

theorem progress_startCall (env : Env) (args : CallArgs) : Progress env (startCall env args) := by
  unfold startCall
  split_ifs with hsession hlong
  · constructor <;> simp [Pc.isOpen, Pc.isRegistered]
  · constructor <;> simp [Pc.isOpen, Pc.isRegistered]
  · constructor <;> simp [Pc.isOpen, Pc.isRegistered]
    omega

/-- A stretch of the state that only renames where calls are keeps the invariant. -/
theorem Tidy.congr (h : Tidy env s) (hnumbered : Numbered s')
    (hprogress : ∀ (i : ℕ) (c' : ExecCall), s'.calls[i]? = some c' → Progress env c')
    (hkept : ∀ (i : ℕ) (c : ExecCall), s.calls[i]? = some c → ∃ c', s'.calls[i]? = some c' ∧
      c'.requestId = c.requestId ∧ c'.pc.holdsSocket = c.pc.holdsSocket ∧
      c'.pc.isRegistered = c.pc.isRegistered)
    (hopen : s'.calls.countP (·.pc.isOpen) = s.calls.countP (·.pc.isOpen))
    (hmutex : ∀ i, s'.connection.socketMutex = some (.call i) ↔
      s.connection.socketMutex = some (.call i))
    (hpending : ∀ id ∈ s'.connection.pendingRequests, id ∈ s.connection.pendingRequests)
    (hrecords : ∀ id, id ∉ s'.connection.pendingRequests →
      s'.connection.answers id = none ∧ s'.connection.executionStatus id = none)
    (hreaders : s'.connectionMapById.readers env.connectionId
      = s.connectionMapById.readers env.connectionId) : Tidy env s' where
  numbered := hnumbered
  progress := fun {i c} hc => hprogress i c hc
  socketMutex := fun {i} hi => by
    obtain ⟨c, hc, hholds⟩ := h.socketMutex ((hmutex i).mp hi)
    obtain ⟨c', hc', -, hholds', -⟩ := hkept i c hc
    exact ⟨c', hc', hholds'.trans hholds⟩
  pendingRequests := fun {id} hid => by
    obtain ⟨i, c, hc, hrid, hne, hreg⟩ := h.pendingRequests (hpending id hid)
    obtain ⟨c', hc', hrid', -, hreg'⟩ := hkept i c hc
    exact ⟨i, c', hc', hrid'.trans hrid, hne, hreg'.trans hreg⟩
  records := fun {id} hid => hrecords id hid
  readers := by
    rw [hopen, hreaders]
    exact h.readers

theorem progress_map_notify {calls : List ExecCall}
    (h : ∀ {i : ℕ} {c : ExecCall}, calls[i]? = some c → Progress env c) (i : ℕ) (c' : ExecCall)
    (hc' : (calls.map ExecCall.notify)[i]? = some c') : Progress env c' := by
  obtain ⟨c, hc, rfl⟩ := getElem?_map_notify hc'
  exact (h hc).notify

theorem kept_map_notify {calls : List ExecCall} (i : ℕ) (c : ExecCall) (hc : calls[i]? = some c) :
    ∃ c', (calls.map ExecCall.notify)[i]? = some c' ∧ c'.requestId = c.requestId ∧
      c'.pc.holdsSocket = c.pc.holdsSocket ∧ c'.pc.isRegistered = c.pc.isRegistered := by
  refine ⟨c.notify, ?_, c.requestId_notify, holdsSocket_notify c, isRegistered_notify c⟩
  rw [List.getElem?_map, hc]
  rfl

theorem countP_map_notify (calls : List ExecCall) :
    (calls.map ExecCall.notify).countP (·.pc.isOpen) = calls.countP (·.pc.isOpen) := by
  rw [List.countP_map]
  refine List.countP_congr fun c _ => ?_
  rw [Function.comp_apply, isOpen_notify]

/-- How many calls have the connection open after a step of one of them. -/
theorem countP_set_call {calls : List ExecCall} {i : ℕ} {c : ExecCall} (hc : calls[i]? = some c)
    (c' : ExecCall) :
    (calls.set i c').countP (·.pc.isOpen) + (if c.pc.isOpen = true then 1 else 0)
      = calls.countP (·.pc.isOpen) + (if c'.pc.isOpen = true then 1 else 0) := by
  obtain ⟨hlt, hget⟩ := List.getElem?_eq_some_iff.mp hc
  have hset := List.countP_set (p := fun c : ExecCall => c.pc.isOpen) (a := c') hlt
  rw [hget] at hset
  have hpos : c.pc.isOpen = true → 0 < calls.countP (·.pc.isOpen) := fun hopen =>
    List.countP_pos_iff.mpr ⟨c, List.mem_of_getElem? hc, hopen⟩
  rw [hset]
  split_ifs with h1 h2
  · have := hpos h1
    omega
  · have := hpos h1
    omega
  · omega
  · omega

theorem Tidy.go {i : ℕ} {c c' : ExecCall} {m : SafeMap String Unit ℕ} {k : Connection}
    (h : Tidy env s) (hsends : Transmits s (.go i)) (hc : s.calls[i]? = some c)
    (hgo : go env s.connectionMapById s.connection i c = some (m, k, c'))
    (hnumbered : Numbered { s with
      connectionMapById := m, connection := k, calls := s.calls.set i c' }) :
    Tidy env { s with connectionMapById := m, connection := k, calls := s.calls.set i c' } := by
  have hpos : c.pc.isOpen = true → 0 < s.connectionMapById.readers env.connectionId := by
    intro hopen
    have hcount : 0 < s.calls.countP (·.pc.isOpen) :=
      List.countP_pos_iff.mpr ⟨c, List.mem_of_getElem? hc, hopen⟩
    have hle := h.readers
    omega
  have hmoved := go_tidy (h.progress hc) h.numbered.counter hpos
    (fun hpc => hsends c hc hpc) hgo
  have he := go_effect hgo
  have hself : (s.calls.set i c')[i]? = some c' := by
    rw [getElem?_set_of_some hc, if_pos rfl]
  have hothers : ∀ {j : ℕ}, i ≠ j → (s.calls.set i c')[j]? = s.calls[j]? := by
    intro j hij
    rw [getElem?_set_of_some hc, if_neg hij]
  refine ⟨hnumbered, ?_, ?_, ?_, ?_, ?_⟩
  · intro j d hd
    by_cases hij : i = j
    · obtain rfl := hij
      obtain rfl : c' = d := Option.some.inj (hself.symm.trans hd)
      exact hmoved.progress
    · exact h.progress ((hothers hij).symm.trans hd)
  · intro j hj
    obtain ⟨hsame, -, hsending⟩ | ⟨-, hlocked, hholds⟩ | ⟨-, hfree, -⟩ := go_socketMutex hgo
    · obtain ⟨d, hd, hholds⟩ := h.socketMutex (hsame.symm.trans hj)
      by_cases hij : i = j
      · obtain rfl := hij
        obtain rfl : c = d := Option.some.inj (hc.symm.trans hd)
        refine ⟨c', hself, ?_⟩
        rw [hmoved.sent (hsending hholds)]
        rfl
      · exact ⟨d, (hothers hij).trans hd, hholds⟩
    · obtain rfl : i = j := by
        have heq := hlocked.symm.trans hj
        cases heq
        rfl
      exact ⟨c', hself, hholds⟩
    · have heq := hfree.symm.trans hj
      cases heq
  · -- The call keeps its registration until it erases the request.
    have hkeeps : ∀ {id : ℕ}, id ∈ s.connection.pendingRequests →
        (c.pc = .left → id ≠ c.requestId) → ∃ (j : ℕ) (d : ExecCall),
          (s.calls.set i c')[j]? = some d ∧ d.requestId = id ∧ id ≠ 0 ∧
            d.pc.isRegistered = true := by
      intro id hid hleft
      obtain ⟨j, d, hd, hrid, hne, hreg⟩ := h.pendingRequests hid
      by_cases hij : i = j
      · obtain rfl := hij
        obtain rfl : c = d := Option.some.inj (hc.symm.trans hd)
        have hnotLeft : c.pc ≠ .left := fun hpc => hleft hpc hrid.symm
        have hnotOpened : c.pc ≠ .opened := by
          intro hpc
          rw [hpc] at hreg
          cases hreg
        exact ⟨i, c', hself, (he.requestId hnotOpened).1.trans hrid, hne,
          hmoved.registered (.inl ⟨hreg, hnotLeft⟩)⟩
      · exact ⟨j, d, (hothers hij).trans hd, hrid, hne, hreg⟩
    intro id hid
    by_cases hnew : c.pc = .numbered
    · rw [he.numbered hnew] at hid
      obtain rfl | hold := Finset.mem_insert.mp hid
      · have hrid : c'.requestId = c.requestId := (he.requestId (by rw [hnew]; simp)).1
        exact ⟨i, c', hself, hrid, (h.progress hc).requestId (.inr hnew),
          hmoved.registered (.inr hnew)⟩
      · exact hkeeps hold (by rw [hnew]; simp)
    · by_cases hleft : c.pc = .left
      · rw [he.left hleft] at hid
        obtain ⟨hne, hold⟩ := Finset.mem_erase.mp hid
        exact hkeeps hold fun _ => hne
      · rw [he.pending hnew hleft] at hid
        exact hkeeps hid fun hpc => absurd hpc hleft
  · intro id hid
    by_cases hleft : c.pc = .left
    · rw [he.left hleft] at hid ⊢
      rw [Connection.answers_forget, Connection.executionStatus_forget]
      split_ifs with heq
      · exact ⟨rfl, rfl⟩
      · refine h.records fun hold => hid ?_
        exact Finset.mem_erase.mpr ⟨heq, hold⟩
    · obtain ⟨hanswers, hstatus⟩ := he.records hleft
      show k.answers id = none ∧ k.executionStatus id = none
      rw [hanswers, hstatus]
      refine h.records fun hold => hid ?_
      show id ∈ k.pendingRequests
      by_cases hnew : c.pc = .numbered
      · rw [he.numbered hnew]
        exact Finset.mem_insert_of_mem hold
      · rw [he.pending hnew hleft]
        exact hold
  · have hcount := countP_set_call hc c'
    have hreaders := hmoved.readers
    have hle := h.readers
    show (s.calls.set i c').countP (·.pc.isOpen) ≤ m.readers env.connectionId
    omega

theorem Tidy.step {a : RpcAction} (h : Tidy env s) (hg : Transmits s a)
    (hs : step env s a = some (s', ())) : Tidy env s' := by
  have hnumbered := h.numbered.step hs
  cases step_kind hs with
  | call args =>
    obtain ⟨hholds, hopen, hreg⟩ := startCall_pc env args
    refine h.congr hnumbered ?_ ?_ ?_ (fun _ => Iff.rfl) (fun _ hid => hid) (fun _ => h.records) rfl
    · intro i c' hc'
      obtain hold | rfl := getElem?_start hc'
      · exact h.progress hold
      · exact progress_startCall env args
    · intro i c hc
      exact ⟨c, List.getElem?_append_left (List.getElem?_eq_some_iff.mp hc).1 ▸ hc, rfl, rfl, rfl⟩
    · simp [List.countP_append, hopen]
  | @go i c c' m k hc hgo => exact h.go hg hc hgo hnumbered
  | @timeOut i c notified hc hpc =>
    have hmid : c.pc.isOpen = true := by rw [hpc]; rfl
    refine h.congr hnumbered ?_ ?_ ?_ (fun _ => Iff.rfl) (fun _ hid => hid) (fun _ => h.records) rfl
    · intro j d hd
      rw [getElem?_set_of_some hc] at hd
      split_ifs at hd with hij
      · cases hd
        exact (h.progress hc).moved hmid rfl rfl rfl rfl
          fun _ => (h.progress hc).requestId (.inl (by rw [hpc]; rfl))
      · exact h.progress hd
    · intro j d hd
      by_cases hij : i = j
      · obtain rfl := hij
        obtain rfl : c = d := Option.some.inj (hc.symm.trans hd)
        exact ⟨_, (getElem?_set_of_some hc _ i).trans (if_pos rfl), rfl, by rw [hpc]; rfl,
          by rw [hpc]; rfl⟩
      · exact ⟨d, (getElem?_set_of_some hc _ j).trans ((if_neg hij).trans hd), rfl, rfl, rfl⟩
    · have hcount := countP_set_call hc
        { c with pc := .left, error := ExecutionError.timeout.report }
      rw [if_pos hmid, if_pos (show Pc.left.isOpen = true from rfl)] at hcount
      exact Nat.add_right_cancel hcount
  | @stored f answer hpending hparse =>
    refine h.congr hnumbered (progress_map_notify h.progress) kept_map_notify (countP_map_notify _)
      (fun _ => Iff.rfl) (fun _ hid => hid) ?_ rfl
    intro id hid
    have hne : id ≠ f.requestId.toNat := fun heq => hid (heq ▸ hpending)
    have hold := h.records hid
    show (s.connection.store _ _ _).answers id = none ∧
      (s.connection.store _ _ _).executionStatus id = none
    rw [Connection.answers_store, Connection.executionStatus_store, if_neg hne, if_neg hne]
    exact hold
  | @malformed f hpending hparse =>
    refine h.congr hnumbered (fun _ _ hc => h.progress hc) (fun _ c hc => ⟨c, hc, rfl, rfl, rfl⟩)
      rfl (fun _ => Iff.rfl) (fun _ hid => Finset.mem_of_mem_erase hid) ?_ rfl
    intro id hid
    show (s.connection.forget _).answers id = none ∧
      (s.connection.forget _).executionStatus id = none
    rw [Connection.answers_forget, Connection.executionStatus_forget]
    split_ifs with heq
    · exact ⟨rfl, rfl⟩
    · exact h.records fun hold => hid (Finset.mem_erase.mpr ⟨heq, hold⟩)
  | quiet hq =>
    have hrecords : ∀ id, id ∉ s'.connection.pendingRequests →
        s'.connection.answers id = none ∧ s'.connection.executionStatus id = none := by
      intro id hid
      rw [hq.pendingRequests] at hid
      rw [hq.answers, hq.executionStatus]
      exact h.records hid
    have hpending : ∀ id ∈ s'.connection.pendingRequests, id ∈ s.connection.pendingRequests := by
      intro id hid
      rwa [hq.pendingRequests] at hid
    obtain hcalls | hcalls := hq.calls
    · refine h.congr hnumbered ?_ ?_ (by rw [hcalls]) hq.socketMutex hpending hrecords hq.readers
      · intro i c hc
        rw [hcalls] at hc
        exact h.progress hc
      · intro i c hc
        exact ⟨c, by rw [hcalls]; exact hc, rfl, rfl, rfl⟩
    · refine h.congr hnumbered ?_ ?_ ?_ hq.socketMutex hpending hrecords hq.readers
      · rw [hcalls]
        exact progress_map_notify h.progress
      · rw [hcalls]
        exact kept_map_notify
      · rw [hcalls]
        exact countP_map_notify _

/-- A call that has returned from a tidy connection has left it clean. -/
theorem Tidy.clean (h : Tidy env s) {i : ℕ} {c : ExecCall} (hc : s.calls[i]? = some c)
    (hreturned : c.pc = .returned) : Clean s i c := by
  have hpending : c.requestId ∉ s.connection.pendingRequests := by
    intro hmem
    obtain ⟨j, d, hd, hrid, hne, hreg⟩ := h.pendingRequests hmem
    obtain rfl : i = j := h.numbered.distinct hc hd hne hrid.symm
    obtain rfl : c = d := Option.some.inj (hc.symm.trans hd)
    rw [hreturned] at hreg
    cases hreg
  obtain ⟨hanswers, hstatus⟩ := h.records hpending
  obtain ⟨hreleased, honce⟩ := (h.progress hc).returned hreturned
  refine ⟨?_, hpending, hanswers, hstatus, hreleased, honce⟩
  intro hmutex
  obtain ⟨d, hd, hholds⟩ := h.socketMutex hmutex
  obtain rfl : c = d := Option.some.inj (hc.symm.trans hd)
  rw [hreturned] at hholds
  cases hholds

/-- A transmission that does not get through leaves the socket mutex with a call that has
returned. -/
theorem not_clean_of_not_transmits {a : RpcAction} (h : Held s) (hg : ¬ Transmits s a)
    (hs : step env s a = some (s', ())) :
    ∃ i c, s'.calls[i]? = some c ∧ c.pc = .returned ∧
      s'.connection.socketMutex = some (.call i) := by
  cases a with
  | go i =>
    obtain ⟨c, hc, hpc, hfails⟩ : ∃ c, s.calls[i]? = some c ∧ c.pc = .sending ∧
        ¬ (c.args.methodName.length ≤ 254 ∧ s.connection.stream.Working
          (queryWrites c.args.methodName c.args.output c.args.extraJWTTokenAuth)) := by
      simp only [Transmits, not_forall] at hg
      obtain ⟨c, hc, hpc, hfails⟩ := hg
      exact ⟨c, hc, hpc, hfails⟩
    have hno : ¬ (writeQuery env.config (.ofNat c.requestId) c.args.methodName c.args.output
        c.args.extraJWTTokenAuth s.connection.stream).1 = true := by
      rw [writeQuery_ok_iff]
      exact fun hok => hfails ⟨hok.1, hok.2.2⟩
    have hheld := h i c hc (by rw [hpc]; rfl)
    simp only [FastRPC3.step, hc, go, hpc, transmit, Option.map_some] at hs
    rw [if_neg hno] at hs
    cases hs
    exact ⟨i, _, (getElem?_set_of_some hc _ i).trans (if_pos rfl), rfl, hheld⟩
  | call args => exact absurd trivial hg
  | timeOut i => exact absurd trivial hg
  | receive f => exact absurd trivial hg
  | lockSocket => exact absurd trivial hg
  | unlockSocket => exact absurd trivial hg
  | terminate => exact absurd trivial hg
  | notifyTerminated => exact absurd trivial hg
  | destroy => exact absurd trivial hg
  | finishDestroy => exact absurd trivial hg

/-- **The exits of `executeTask`.**  In a run of any calls with any answers, timeouts and ends of
the connection, every call that has returned has left the connection clean in every state, exactly
if every transmission of the run gets through. -/
theorem clean_iff_transmits (env : Env) (connectionMapById : SafeMap String Unit ℕ)
    (stream : SocketStream.Writer) (actions : List RpcAction) :
    (∀ t ∈ transitions (step env) (fresh connectionMapById stream) actions,
        ∀ (i : ℕ) (c : ExecCall), t.after.calls[i]? = some c → c.pc = .returned →
          Clean t.after i c) ↔
      Guarded (step env) Transmits (fresh connectionMapById stream) actions := by
  constructor
  · intro hclean t ht
    by_contra hg
    have hheld : Held t.before := by
      have hall : Guarded (step env) (fun _ _ => True) (fresh connectionMapById stream) actions :=
        fun _ _ => trivial
      refine (hall.invariant Held (fun s a s' _ h _ hs => h.step hs) ?_ t ht).1
      intro i c hc
      simp [fresh] at hc
    obtain ⟨i, c, hc, hreturned, hmutex⟩ :=
      not_clean_of_not_transmits hheld hg (step_of_mem_transitions ht)
    exact (hclean t ht i c hc hreturned).socketMutex hmutex
  · intro hg t ht i c hc hreturned
    have htidy := (hg.invariant (Tidy env) (fun s a s' _ h hg hs => h.step hg hs)
      (tidy_fresh env connectionMapById stream) t ht).2
    exact htidy.clean hc hreturned

/-- One call up to its transmission. -/
def sampleSent : List RpcAction :=
  .call { methodName := [112], output := [123, 125] } :: List.replicate 5 (.go 0)

/-- A call whose first write fails returns with the socket mutex, its request stays pending, and
the connection stays open. -/
theorem failed_transmission_leaks :
    ∃ t ∈ transitions (step sampleEnv) (fresh sampleMap { fails := fun _ => some 0 }) sampleSent,
      ∃ c : ExecCall, t.after.calls[0]? = some c ∧ c.pc = .returned ∧
        c.error = ExecutionError.dataTransmissionFailure.report ∧ ¬ Clean t.after 0 c ∧
        t.after.connection.socketMutex = some (.call 0) ∧ c.requestId = 1 ∧
        1 ∈ t.after.connection.pendingRequests ∧ c.opens = 1 ∧ c.releases = 0 := by
  have hrun : transitions (step sampleEnv) (fresh sampleMap { fails := fun _ => some 0 }) sampleSent
      = List.take 5 (transitions (step sampleEnv) (fresh sampleMap { fails := fun _ => some 0 })
          sampleSent) ++ _ :: [] := (List.take_append_drop 5 _).symm
  rw [hrun]
  refine ⟨_, List.mem_append_right _ List.mem_cons_self, _, rfl, rfl, rfl, ?_, rfl, rfl, ?_, rfl,
    rfl⟩
  · intro hclean
    exact hclean.socketMutex rfl
  · exact Finset.mem_insert_self 1 ∅

end FastRPC3

end Mantids
