/-
# The connections of a multithreaded acceptor

`Acceptors::MultiThreaded` (`Net_Sockets/acceptor_multithreaded.cpp`) runs every client in a thread
of its own.  It keeps a list of the threads, and a counter for each remote address, which an ending
thread gives back by asking its client for the address again.

* `MultiThreaded` — the list, the counters, and all clients that came;
* `step` — a step of `processClient`, or of a thread (`Net_Sockets/acceptor_thread.cpp`);
* `Accounted` — the counters are those of the list, and the limits are kept;
* `KeepsSocket` — the condition: a callback keeps the socket, and its address;
* `connections_accounted` — what holds in every run that meets it.

A wait may end without a notification, so notifications are not kept.
-/
import Mathlib
import Mantids.Lib.Run

namespace Mantids

open Run

/-- Where a client is. -/
inductive ClientPc where
  /-- `processClient` was called. -/
  | called
  /-- It waits for room in the list. -/
  | waiting
  /-- It was not let in. -/
  | rejected
  /-- Its thread has not called `postInitConnection` yet. -/
  | started
  /-- Its callback has returned. -/
  | ending
  | ended
deriving DecidableEq

/-- `StreamAcceptorThread`. -/
structure AcceptorClient (α : Type*) where
  /-- `m_pClientSocket`, by its remote address; a null pointer is `none`. -/
  socket : Option α
  pc : ClientPc

/-- `Acceptors::MultiThreaded`, with all clients that came. -/
structure MultiThreaded (α : Type*) where
  maxConcurrentClients : ℕ := 100
  maxConnectionsPerIP : ℕ := 10
  /-- `callbacks.onClientConnected` is set. -/
  onClientConnected : Bool := true
  /-- `callbacks.onProtocolInitializationFailure` is set. -/
  onProtocolInitializationFailure : Bool := false
  finalized : Bool := false
  threadList : List ℕ := []
  connectionsPerIP : α → Option ℕ := fun _ => none
  clients : List (AcceptorClient α) := []

/-- A step of one of the threads. -/
inductive AcceptAction (α : Type*) where
  /-- A new client comes from this address. -/
  | processClient (remotePair : α)
  /-- `processClient` has the lock. -/
  | enter (i : ℕ)
  | timeOut (i : ℕ)
  /-- `postInitConnection`: the result of the initialisation, that of the callback, and the address
  that the socket has afterwards. -/
  | postInitConnection (i : ℕ) (initialized result : Bool) (remotePair : α)
  | finalizeThreadElement (i : ℕ)
  /-- The destructor sets `m_finalized`. -/
  | finalize

/-- What a step leads to. -/
inductive AcceptEvent where
  | none
  | waits
  | accepted
  | limitPerIPReached
  | removed
  /-- The client is asked for the address of a null socket. -/
  | nullSocket
  /-- The exception of `decrementIPUsage`. -/
  | neverIncremented
deriving DecidableEq

namespace MultiThreaded

variable {α : Type*} [DecidableEq α]

/-- `incrementIPUsage`, on an `uint32_t`. -/
def incrementIPUsage (connectionsPerIP : α → Option ℕ) (ipAddr : α) : (α → Option ℕ) × ℕ :=
  match connectionsPerIP ipAddr with
  | none => (Function.update connectionsPerIP ipAddr (some 1), 1)
  | some n =>
    if n ≠ 2 ^ 32 - 1 then (Function.update connectionsPerIP ipAddr (some (n + 1)), n + 1)
    else (connectionsPerIP, n)

/-- `decrementIPUsage`; `none` is its exception. -/
def decrementIPUsage (connectionsPerIP : α → Option ℕ) (ipAddr : α) : Option (α → Option ℕ) :=
  match connectionsPerIP ipAddr with
  | none => none
  | some n =>
    some (Function.update connectionsPerIP ipAddr
      (if n = 1 then none else some ((n + 2 ^ 32 - 1) % 2 ^ 32)))

def setClient (s : MultiThreaded α) (i : ℕ) (c : AcceptorClient α) : MultiThreaded α :=
  { s with clients := s.clients.set i c }

/-- `processClient` from the test for room on. -/
def enter (s : MultiThreaded α) (i : ℕ) (c : AcceptorClient α) : MultiThreaded α × AcceptEvent :=
  if s.maxConcurrentClients ≤ s.threadList.length ∧ s.finalized = false then
    (s.setClient i { c with pc := .waiting }, .waits)
  else if s.finalized then (s.setClient i { c with pc := .rejected }, .none)
  else
    match c.socket with
    | none => (s.setClient i { c with pc := .rejected }, .nullSocket)
    | some remotePair =>
      let (connectionsPerIP, n) := incrementIPUsage s.connectionsPerIP remotePair
      if s.maxConnectionsPerIP < n then
        match decrementIPUsage connectionsPerIP remotePair with
        | none => (s.setClient i { c with pc := .rejected }, .neverIncremented)
        | some connectionsPerIP =>
          ({ s.setClient i { c with pc := .rejected } with connectionsPerIP }, .limitPerIPReached)
      else
        ({ s.setClient i { c with pc := .started } with
          connectionsPerIP
          threadList := s.threadList ++ [i] }, .accepted)

/-- The socket that `postInitConnection` leaves. -/
def socketAfter (s : MultiThreaded α) (c : AcceptorClient α) (initialized result : Bool)
    (remotePair : α) : Option α :=
  let callback := if initialized then s.onClientConnected else s.onProtocolInitializationFailure
  if callback && !result then none else c.socket.map fun _ => remotePair

/-- `finalizeThreadElement`, for a thread of the list. -/
def finalizeThreadElement (s : MultiThreaded α) (i : ℕ) (c : AcceptorClient α) :
    MultiThreaded α × AcceptEvent :=
  if i ∈ s.threadList then
    let s := { s.setClient i { c with pc := .ended } with
      threadList := s.threadList.filter (· ≠ i) }
    match c.socket with
    | none => (s, .nullSocket)
    | some remotePair =>
      match decrementIPUsage s.connectionsPerIP remotePair with
      | none => (s, .neverIncremented)
      | some connectionsPerIP => ({ s with connectionsPerIP }, .removed)
  else (s.setClient i { c with pc := .ended }, .none)

def step (s : MultiThreaded α) : AcceptAction α → Option (MultiThreaded α × AcceptEvent)
  | .processClient remotePair =>
    some ({ s with clients := s.clients ++ [⟨some remotePair, .called⟩] }, .none)
  | .enter i =>
    match s.clients[i]? with
    | none => none
    | some c => if c.pc = .called ∨ c.pc = .waiting then some (s.enter i c) else none
  | .timeOut i =>
    match s.clients[i]? with
    | none => none
    | some c =>
      if c.pc = .waiting then some (s.setClient i { c with pc := .rejected }, .none) else none
  | .postInitConnection i initialized result remotePair =>
    match s.clients[i]? with
    | none => none
    | some c =>
      if c.pc = .started then
        some (s.setClient i
          { socket := s.socketAfter c initialized result remotePair, pc := .ending }, .none)
      else none
  | .finalizeThreadElement i =>
    match s.clients[i]? with
    | none => none
    | some c => if c.pc = .ending then some (s.finalizeThreadElement i c) else none
  | .finalize => some ({ s with finalized := true }, .none)

/-! ## The condition -/

/-- The callback that runs does not return `false`, and the socket keeps its address. -/
def KeepsSocket (s : MultiThreaded α) : AcceptAction α → Prop
  | .postInitConnection i initialized result remotePair =>
    ∀ c ∈ s.clients[i]?, s.socketAfter c initialized result remotePair = c.socket
  | _ => True

/-! ## The accounting -/

/-- The remote address of a client. -/
def address (s : MultiThreaded α) (i : ℕ) : Option α := s.clients[i]?.bind (·.socket)

/-- The entries of the list with this address. -/
def usage (s : MultiThreaded α) (ipAddr : α) : ℕ :=
  s.threadList.countP (s.address · = some ipAddr)

/-- A counter in the map: absent when zero. -/
def counter (n : ℕ) : Option ℕ := if n = 0 then none else some n

/-- The counters are those of the list, and the limits are kept. -/
structure Accounted (s : MultiThreaded α) : Prop where
  exact : ∀ ipAddr, s.connectionsPerIP ipAddr = counter (s.usage ipAddr)
  perIP : ∀ ipAddr, s.usage ipAddr ≤ s.maxConnectionsPerIP
  total : s.threadList.length ≤ s.maxConcurrentClients

/-- The accounting, with what it rests on. -/
structure Kept (s : MultiThreaded α) : Prop extends Accounted s where
  limit : s.maxConcurrentClients < 2 ^ 32
  nodup : s.threadList.Nodup
  listed : ∀ i ∈ s.threadList, ∃ c, s.clients[i]? = some c ∧ (c.pc = .started ∨ c.pc = .ending)
  socket : ∀ c ∈ s.clients, c.pc ≠ .rejected → c.pc ≠ .ended → ∃ ipAddr, c.socket = some ipAddr

theorem incrementIPUsage_counter {connectionsPerIP : α → Option ℕ} {ipAddr : α} {n : ℕ}
    (h : connectionsPerIP ipAddr = counter n) (hn : n < 2 ^ 32 - 1) :
    incrementIPUsage connectionsPerIP ipAddr =
      (Function.update connectionsPerIP ipAddr (some (n + 1)), n + 1) := by
  unfold incrementIPUsage
  rw [h, counter]
  by_cases hzero : n = 0
  · subst hzero
    rfl
  · rw [if_neg hzero]
    show (if n ≠ 2 ^ 32 - 1 then _ else _) = _
    rw [if_pos hn.ne]

theorem decrementIPUsage_counter {connectionsPerIP : α → Option ℕ} {ipAddr : α} {n : ℕ}
    (h : connectionsPerIP ipAddr = some (n + 1)) (hn : n < 2 ^ 32 - 1) :
    decrementIPUsage connectionsPerIP ipAddr =
      some (Function.update connectionsPerIP ipAddr (counter n)) := by
  unfold decrementIPUsage
  rw [h]
  have hsub : (n + 1 + 2 ^ 32 - 1) % 2 ^ 32 = n := by omega
  show some (Function.update connectionsPerIP ipAddr
    (if n + 1 = 1 then none else some ((n + 1 + 2 ^ 32 - 1) % 2 ^ 32))) = _
  rw [hsub, counter]
  by_cases hzero : n = 0
  · rw [if_pos hzero, if_pos (by omega)]
  · rw [if_neg hzero, if_neg (by omega)]

/-- A rejected client leaves the counters as they were. -/
theorem update_update_counter {connectionsPerIP : α → Option ℕ} {ipAddr : α} {n : ℕ}
    (h : connectionsPerIP ipAddr = counter n) (m : Option ℕ) :
    Function.update (Function.update connectionsPerIP ipAddr m) ipAddr (counter n) =
      connectionsPerIP := by
  funext a
  by_cases ha : a = ipAddr
  · rw [ha, Function.update_self, h]
  · rw [Function.update_of_ne ha, Function.update_of_ne ha]

/-! ## What a step keeps -/

variable {s : MultiThreaded α} {i : ℕ} {c e : AcceptorClient α}

omit [DecidableEq α] in
/-- An address does not change with the place of a client. -/
theorem address_setClient (hi : s.clients[i]? = some c) (hsocket : e.socket = c.socket) :
    (s.setClient i e).address = s.address := by
  funext j
  show (s.clients.set i e)[j]?.bind (·.socket) = s.clients[j]?.bind (·.socket)
  by_cases hj : i = j
  · subst hj
    rw [List.getElem?_set_self (List.getElem?_eq_some_iff.mp hi).1, hi]
    exact hsocket
  · rw [List.getElem?_set_ne hj]

omit [DecidableEq α] in
theorem address_of_getElem? (hi : s.clients[i]? = some c) : s.address i = c.socket := by
  unfold address
  rw [hi]
  rfl

theorem usage_le_length (s : MultiThreaded α) (ipAddr : α) :
    s.usage ipAddr ≤ s.threadList.length := List.countP_le_length

/-- A client of the list is in its thread. -/
theorem Kept.not_listed (h : s.Kept) (hi : s.clients[i]? = some c)
    (hpc : c.pc = .called ∨ c.pc = .waiting) : i ∉ s.threadList := by
  intro hmem
  obtain ⟨d, hd, hthread⟩ := h.listed i hmem
  rw [hi] at hd
  cases hd
  rcases hpc with hpc | hpc <;> rcases hthread with hthread | hthread <;>
    rw [hpc] at hthread <;> cases hthread

/-- The clients after one of them has moved. -/
theorem Kept.socket_set (h : s.Kept) (hi : s.clients[i]? = some c)
    (hsocket : e.socket = c.socket) (hpc : c.pc ≠ .rejected ∧ c.pc ≠ .ended) :
    ∀ d ∈ s.clients.set i e, d.pc ≠ .rejected → d.pc ≠ .ended →
      ∃ ipAddr, d.socket = some ipAddr := by
  intro d hd hrejected hended
  rcases List.mem_or_eq_of_mem_set hd with hmem | rfl
  · exact h.socket d hmem hrejected hended
  · rw [hsocket]
    exact h.socket c (List.mem_of_getElem? hi) hpc.1 hpc.2

/-- Other clients, of the same usage. -/
theorem Kept.withClients (h : s.Kept) {clients : List (AcceptorClient α)}
    (husage : usage { s with clients := clients } = s.usage)
    (hlisted : ∀ i ∈ s.threadList, ∃ c, clients[i]? = some c ∧ (c.pc = .started ∨ c.pc = .ending))
    (hsocket : ∀ c ∈ clients, c.pc ≠ .rejected → c.pc ≠ .ended → ∃ ipAddr, c.socket = some ipAddr) :
    Kept { s with clients := clients } := by
  constructor
  · constructor
    · rw [husage]
      exact h.exact
    · rw [husage]
      exact h.perIP
    · exact h.total
  · exact h.limit
  · exact h.nodup
  · exact hlisted
  · exact hsocket

/-- A client moves without changing the list. -/
theorem Kept.setClient (h : s.Kept) (hi : s.clients[i]? = some c)
    (hsocket : e.socket = c.socket) (hpc : c.pc ≠ .rejected ∧ c.pc ≠ .ended)
    (hlisted : i ∈ s.threadList → e.pc = .started ∨ e.pc = .ending) :
    (s.setClient i e).Kept := by
  have husage : (s.setClient i e).usage = s.usage := by
    unfold usage
    rw [address_setClient hi hsocket]
    rfl
  apply h.withClients husage
  · intro j hj
    by_cases hij : i = j
    · subst hij
      exact ⟨e, List.getElem?_set_self (List.getElem?_eq_some_iff.mp hi).1, hlisted hj⟩
    · rw [List.getElem?_set_ne hij]
      exact h.listed j hj
  · exact h.socket_set hi hsocket hpc

/-! ### Letting a client in -/

/-- The state when a client was let in. -/
def accept (s : MultiThreaded α) (i : ℕ) (c : AcceptorClient α) (ipAddr : α) : MultiThreaded α :=
  { s.setClient i { c with pc := .started } with
    connectionsPerIP := Function.update s.connectionsPerIP ipAddr (some (s.usage ipAddr + 1))
    threadList := s.threadList ++ [i] }

theorem usage_accept (hi : s.clients[i]? = some c) {ipAddr : α} (hc : c.socket = some ipAddr)
    (a : α) : (s.accept i c ipAddr).usage a = s.usage a + if ipAddr = a then 1 else 0 := by
  have haddress : (s.accept i c ipAddr).address = s.address :=
    address_setClient (e := { c with pc := .started }) hi rfl
  unfold usage
  rw [haddress]
  show (s.threadList ++ [i]).countP _ = _
  rw [List.countP_append, List.countP_singleton, address_of_getElem? hi, hc]
  simp only [Option.some.injEq, decide_eq_true_eq]

theorem Kept.accept (h : s.Kept) (hi : s.clients[i]? = some c)
    (hpc : c.pc = .called ∨ c.pc = .waiting) {ipAddr : α} (hc : c.socket = some ipAddr)
    (hroom : s.threadList.length < s.maxConcurrentClients)
    (hlimit : s.usage ipAddr + 1 ≤ s.maxConnectionsPerIP) : (s.accept i c ipAddr).Kept := by
  constructor
  · constructor
    · intro a
      rw [usage_accept hi hc]
      show Function.update s.connectionsPerIP ipAddr _ a = _
      by_cases ha : ipAddr = a
      · subst ha
        rw [Function.update_self, if_pos rfl, counter, if_neg (Nat.succ_ne_zero _)]
      · rw [Function.update_of_ne (Ne.symm ha), if_neg ha, h.exact, Nat.add_zero]
    · intro a
      rw [usage_accept hi hc]
      by_cases ha : ipAddr = a
      · subst ha
        rw [if_pos rfl]
        exact hlimit
      · rw [if_neg ha]
        exact h.perIP a
    · show (s.threadList ++ [i]).length ≤ s.maxConcurrentClients
      rw [List.length_append, List.length_singleton]
      exact hroom
  · exact h.limit
  · exact h.nodup.append (List.nodup_singleton i)
      (List.disjoint_singleton.mpr (h.not_listed hi hpc))
  · intro j hj
    show ∃ d, (s.clients.set i _)[j]? = some d ∧ _
    by_cases hij : i = j
    · subst hij
      exact ⟨_, List.getElem?_set_self (List.getElem?_eq_some_iff.mp hi).1, Or.inl rfl⟩
    · rw [List.getElem?_set_ne hij]
      rcases List.mem_append.mp hj with hj | hj
      · exact h.listed j hj
      · exact absurd (List.mem_singleton.mp hj).symm hij
  · refine h.socket_set (e := { c with pc := .started }) hi rfl ?_
    constructor <;> rcases hpc with hpc | hpc <;> rw [hpc] <;> decide

/-- `enter`: the client waits or goes away with the counters as they were, or is let in. -/
theorem Kept.enter_cases (h : s.Kept) (hi : s.clients[i]? = some c)
    (hpc : c.pc = .called ∨ c.pc = .waiting) :
    (∃ pc o, s.enter i c = (s.setClient i { c with pc }, o) ∧
      o ≠ .nullSocket ∧ o ≠ .neverIncremented) ∨
    (∃ ipAddr, c.socket = some ipAddr ∧ s.threadList.length < s.maxConcurrentClients ∧
      s.usage ipAddr + 1 ≤ s.maxConnectionsPerIP ∧
      s.enter i c = (s.accept i c ipAddr, .accepted)) := by
  unfold enter
  by_cases hfull : s.maxConcurrentClients ≤ s.threadList.length ∧ s.finalized = false
  · rw [if_pos hfull]
    exact Or.inl ⟨_, _, rfl, by decide, by decide⟩
  · rw [if_neg hfull]
    by_cases hfinalized : s.finalized = true
    · rw [if_pos hfinalized]
      exact Or.inl ⟨_, _, rfl, by decide, by decide⟩
    · rw [if_neg hfinalized]
      have hroom : s.threadList.length < s.maxConcurrentClients := by
        by_contra hle
        exact hfull ⟨Nat.le_of_not_lt hle, Bool.eq_false_iff.mpr hfinalized⟩
      obtain ⟨ipAddr, hc⟩ : ∃ ipAddr, c.socket = some ipAddr := by
        refine h.socket c (List.mem_of_getElem? hi) ?_ ?_ <;>
          rcases hpc with hpc | hpc <;> rw [hpc] <;> decide
      have husage : s.usage ipAddr < 2 ^ 32 - 1 := by
        have hle := s.usage_le_length ipAddr
        have hlimit := h.limit
        omega
      simp only [hc, incrementIPUsage_counter (h.exact ipAddr) husage]
      by_cases hper : s.maxConnectionsPerIP < s.usage ipAddr + 1
      · rw [if_pos hper, decrementIPUsage_counter (Function.update_self ..) husage]
        rw [update_update_counter (h.exact ipAddr)]
        exact Or.inl ⟨_, _, rfl, by decide, by decide⟩
      · rw [if_neg hper]
        refine Or.inr ⟨ipAddr, rfl, hroom, Nat.le_of_not_lt hper, ?_⟩
        rw [MultiThreaded.accept, hc]

/-! ### Ending a thread -/

/-- The state when the entry of a thread was removed. -/
def remove (s : MultiThreaded α) (i : ℕ) (c : AcceptorClient α) (ipAddr : α) : MultiThreaded α :=
  { s.setClient i { c with pc := .ended } with
    connectionsPerIP :=
      Function.update s.connectionsPerIP ipAddr (counter (s.usage ipAddr - 1))
    threadList := s.threadList.filter (· ≠ i) }

theorem countP_filter_ne {l : List ℕ} (hl : l.Nodup) (hi : i ∈ l) (p : ℕ → Bool) :
    (l.filter (· ≠ i)).countP p + (if p i then 1 else 0) = l.countP p := by
  have herase : l.erase i = l.filter (· ≠ i) := by
    rw [hl.erase_eq_filter]
    refine List.filter_congr fun j _ => ?_
    by_cases hj : j = i <;> simp [hj]
  rw [(List.perm_cons_erase hi).countP_eq p, List.countP_cons, herase]

theorem usage_remove (h : s.Kept) (hi : s.clients[i]? = some c) (hmem : i ∈ s.threadList)
    {ipAddr : α} (hc : c.socket = some ipAddr) (a : α) :
    (s.remove i c ipAddr).usage a + (if ipAddr = a then 1 else 0) = s.usage a := by
  have haddress : (s.remove i c ipAddr).address = s.address :=
    address_setClient (e := { c with pc := .ended }) hi rfl
  have hcount := countP_filter_ne h.nodup hmem (s.address · = some a)
  unfold usage
  rw [haddress, ← hcount, address_of_getElem? hi, hc]
  simp only [Option.some.injEq, decide_eq_true_eq]
  rfl

theorem Kept.remove (h : s.Kept) (hi : s.clients[i]? = some c) (hpc : c.pc = .ending)
    (hmem : i ∈ s.threadList) {ipAddr : α} (hc : c.socket = some ipAddr) :
    (s.remove i c ipAddr).Kept := by
  have husage := fun a => usage_remove h hi hmem hc a
  constructor
  · constructor
    · intro a
      show Function.update s.connectionsPerIP ipAddr _ a = _
      by_cases ha : ipAddr = a
      · subst ha
        have hself := husage ipAddr
        rw [if_pos rfl] at hself
        rw [Function.update_self, ← hself, Nat.add_sub_cancel]
      · have hother := husage a
        rw [if_neg ha, Nat.add_zero] at hother
        rw [Function.update_of_ne (Ne.symm ha), h.exact, hother]
    · intro a
      exact (Nat.le_of_add_right_le (husage a).le).trans (h.perIP a)
    · exact (List.length_filter_le _ _).trans h.total
  · exact h.limit
  · exact h.nodup.filter _
  · intro j hj
    obtain ⟨hj, hne⟩ := List.mem_filter.mp hj
    show ∃ d, (s.clients.set i _)[j]? = some d ∧ _
    rw [List.getElem?_set_ne (Ne.symm (of_decide_eq_true hne))]
    exact h.listed j hj
  · refine h.socket_set (e := { c with pc := .ended }) hi rfl ?_
    constructor <;> rw [hpc] <;> decide

/-- `finalizeThreadElement` gives back the counter of an entry of the list. -/
theorem Kept.finalizeThreadElement_eq (h : s.Kept) (hi : s.clients[i]? = some c)
    (hpc : c.pc = .ending) (hmem : i ∈ s.threadList) :
    ∃ ipAddr, c.socket = some ipAddr ∧
      s.finalizeThreadElement i c = (s.remove i c ipAddr, .removed) := by
  obtain ⟨ipAddr, hc⟩ : ∃ ipAddr, c.socket = some ipAddr := by
    refine h.socket c (List.mem_of_getElem? hi) ?_ ?_ <;> rw [hpc] <;> decide
  have hself := usage_remove h hi hmem hc ipAddr
  rw [if_pos rfl] at hself
  have husage : s.usage ipAddr - 1 < 2 ^ 32 - 1 := by
    have hle := s.usage_le_length ipAddr
    have htotal := h.total
    have hlimit := h.limit
    omega
  have hcounter : s.connectionsPerIP ipAddr = some (s.usage ipAddr - 1 + 1) := by
    rw [h.exact, counter, if_neg (by omega)]
    congr 1
    omega
  refine ⟨ipAddr, hc, ?_⟩
  unfold finalizeThreadElement
  rw [if_pos hmem]
  simp only [hc]
  show (match decrementIPUsage s.connectionsPerIP ipAddr with
    | none => _
    | some connectionsPerIP => _) = _
  rw [decrementIPUsage_counter hcounter husage, MultiThreaded.remove, hc]

/-! ## Over a run -/

/-- What a step leads to, when the sockets are kept. -/
theorem Kept.step {s s' : MultiThreaded α} {action : AcceptAction α} {o : AcceptEvent}
    (h : s.Kept) (hsocket : s.KeepsSocket action)
    (hstep : s.step action = some (s', o)) :
    s'.Kept ∧ o ≠ .nullSocket ∧ o ≠ .neverIncremented ∧
      ∀ i, action = .finalizeThreadElement i → i ∉ s'.threadList := by
  cases action with
  | processClient remotePair =>
      cases hstep
      refine ⟨?_, by decide, by decide, fun i hi => by cases hi⟩
      have haddress : ∀ i ∈ s.threadList,
          (s.clients ++ [⟨some remotePair, .called⟩])[i]? = s.clients[i]? := by
        intro i hi
        obtain ⟨c, hc, -⟩ := h.listed i hi
        exact List.getElem?_append_left (List.getElem?_eq_some_iff.mp hc).1
      have husage : usage { s with clients := s.clients ++ [⟨some remotePair, .called⟩] } =
          s.usage := by
        funext a
        refine List.countP_congr fun i hi => ?_
        unfold address
        rw [← haddress i hi]
      apply h.withClients husage
      · intro i hi
        rw [haddress i hi]
        exact h.listed i hi
      · intro c hc hrejected hended
        rcases List.mem_append.mp hc with hc | hc
        · exact h.socket c hc hrejected hended
        · rw [List.mem_singleton.mp hc]
          exact ⟨remotePair, rfl⟩
  | enter i =>
      cases hi : s.clients[i]? with
      | none => simp [MultiThreaded.step, hi] at hstep
      | some c =>
          simp only [MultiThreaded.step, hi] at hstep
          by_cases hpc : c.pc = .called ∨ c.pc = .waiting
          · rw [if_pos hpc] at hstep
            have hpcs : c.pc ≠ .rejected ∧ c.pc ≠ .ended := by
              constructor <;> rcases hpc with hpc | hpc <;> rw [hpc] <;> decide
            rcases h.enter_cases hi hpc with
              ⟨pc, o', henter, hnull, hnever⟩ | ⟨ipAddr, hc, hroom, hlimit, henter⟩
            · rw [henter] at hstep
              cases hstep
              refine ⟨h.setClient hi rfl hpcs fun hmem => ?_, hnull, hnever, fun j hj => ?_⟩
              · exact absurd hmem (h.not_listed hi hpc)
              · cases hj
            · rw [henter] at hstep
              cases hstep
              exact ⟨h.accept hi hpc hc hroom hlimit, by decide, by decide,
                fun j hj => by cases hj⟩
          · rw [if_neg hpc] at hstep
            cases hstep
  | timeOut i =>
      cases hi : s.clients[i]? with
      | none => simp [MultiThreaded.step, hi] at hstep
      | some c =>
          simp only [MultiThreaded.step, hi] at hstep
          by_cases hpc : c.pc = .waiting
          · rw [if_pos hpc] at hstep
            cases hstep
            refine ⟨h.setClient hi rfl ?_ fun hmem => ?_, by decide, by decide,
              fun j hj => by cases hj⟩
            · rw [hpc]
              decide
            · exact absurd hmem (h.not_listed hi (Or.inr hpc))
          · rw [if_neg hpc] at hstep
            cases hstep
  | postInitConnection i initialized result remotePair =>
      cases hi : s.clients[i]? with
      | none => simp [MultiThreaded.step, hi] at hstep
      | some c =>
          simp only [MultiThreaded.step, hi] at hstep
          by_cases hpc : c.pc = .started
          · rw [if_pos hpc] at hstep
            cases hstep
            refine ⟨h.setClient hi (hsocket c hi) ?_ fun _ => Or.inr rfl, by decide, by decide,
              fun j hj => by cases hj⟩
            rw [hpc]
            decide
          · rw [if_neg hpc] at hstep
            cases hstep
  | finalizeThreadElement i =>
      cases hi : s.clients[i]? with
      | none => simp [MultiThreaded.step, hi] at hstep
      | some c =>
          simp only [MultiThreaded.step, hi] at hstep
          by_cases hpc : c.pc = .ending
          · rw [if_pos hpc] at hstep
            by_cases hmem : i ∈ s.threadList
            · obtain ⟨ipAddr, hc, hfinalize⟩ := h.finalizeThreadElement_eq hi hpc hmem
              rw [hfinalize] at hstep
              cases hstep
              refine ⟨h.remove hi hpc hmem hc, by decide, by decide, fun j hj => ?_⟩
              cases hj
              intro hleft
              exact of_decide_eq_true (List.mem_filter.mp hleft).2 rfl
            · rw [MultiThreaded.finalizeThreadElement, if_neg hmem] at hstep
              cases hstep
              refine ⟨h.setClient hi rfl ?_ fun hlisted => absurd hlisted hmem, by decide,
                by decide, fun j hj => ?_⟩
              · rw [hpc]
                decide
              · cases hj
                exact hmem
          · rw [if_neg hpc] at hstep
            cases hstep
  | finalize =>
      cases hstep
      exact ⟨⟨⟨h.exact, h.perIP, h.total⟩, h.limit, h.nodup, h.listed, h.socket⟩, by decide,
        by decide, fun i hi => by cases hi⟩

/-- An acceptor before the first client. -/
def make (maxConcurrentClients maxConnectionsPerIP : UInt32)
    (onClientConnected onProtocolInitializationFailure : Bool) : MultiThreaded α :=
  { maxConcurrentClients := maxConcurrentClients.toNat
    maxConnectionsPerIP := maxConnectionsPerIP.toNat
    onClientConnected
    onProtocolInitializationFailure }

theorem kept_make (maxConcurrentClients maxConnectionsPerIP : UInt32)
    (onClientConnected onProtocolInitializationFailure : Bool) :
    (make maxConcurrentClients maxConnectionsPerIP onClientConnected
      onProtocolInitializationFailure : MultiThreaded α).Kept := by
  constructor
  · constructor
    · intro a
      rfl
    · intro a
      exact Nat.zero_le _
    · exact Nat.zero_le _
  · exact maxConcurrentClients.toNat_lt
  · exact List.nodup_nil
  · intro i hi
    cases hi
  · intro c hc
    cases hc

/-- **The connections are accounted for.**  As long as every callback keeps its socket and the
socket keeps its address, after each step the counters are those of the list, within the limits; a
thread that has ended is not in the list, no null socket is asked for its address, and no counter
is given back that is not there. -/
theorem connections_accounted (maxConcurrentClients maxConnectionsPerIP : UInt32)
    (onClientConnected onProtocolInitializationFailure : Bool)
    (actions : List (AcceptAction α))
    (h : Guarded MultiThreaded.step KeepsSocket
      (make maxConcurrentClients maxConnectionsPerIP onClientConnected
        onProtocolInitializationFailure) actions) :
    ∀ t ∈ transitions MultiThreaded.step
        (make maxConcurrentClients maxConnectionsPerIP onClientConnected
          onProtocolInitializationFailure) actions,
      t.after.Accounted ∧ t.output ≠ .nullSocket ∧ t.output ≠ .neverIncremented ∧
        ∀ i, t.input = .finalizeThreadElement i → i ∉ t.after.threadList := by
  intro t ht
  have hinv := h.invariant Kept (fun s action s' o hkept hsocket hstep =>
    (hkept.step hsocket hstep).1) (kept_make ..) t ht
  obtain ⟨hkept, hrest⟩ := hinv.1.step (h t ht) (step_of_mem_transitions ht)
  exact ⟨hkept.toAccounted, hrest⟩

/-- Two clients of one address, one at a time; the callback of the first returns `true`. -/
theorem connections_accounted_two :
    ∃ t₀ t₁ t₂ t₃ t₄ t₅, transitions (MultiThreaded.step (α := ℕ)) (make 100 1 true false)
        [.processClient 7, .enter 0, .processClient 7, .enter 1,
          .postInitConnection 0 true true 7, .finalizeThreadElement 0] = [t₀, t₁, t₂, t₃, t₄, t₅] ∧
      t₁.after.Accounted ∧ t₃.output = .limitPerIPReached ∧ t₃.after.Accounted ∧
      t₅.after.Accounted ∧ 0 ∉ t₅.after.threadList := by
  refine ⟨_, _, _, _, _, _, rfl, ?_⟩
  have hall := connections_accounted 100 1 true false (α := ℕ)
    [.processClient 7, .enter 0, .processClient 7, .enter 1,
      .postInitConnection 0 true true 7, .finalizeThreadElement 0] ?_
  · exact ⟨(hall _ (List.getElem_mem (n := 1) (by decide))).1, rfl,
      (hall _ (List.getElem_mem (n := 3) (by decide))).1,
      (hall _ (List.getElem_mem (n := 5) (by decide))).1,
      (hall _ (List.getElem_mem (n := 5) (by decide))).2.2.2 0 rfl⟩
  · have hrun : transitions (MultiThreaded.step (α := ℕ)) (make 100 1 true false)
        [.processClient 7, .enter 0, .processClient 7, .enter 1,
          .postInitConnection 0 true true 7, .finalizeThreadElement 0] =
        [⟨_, _, _, _⟩, ⟨_, _, _, _⟩, ⟨_, _, _, _⟩, ⟨_, _, _, _⟩, ⟨_, _, _, _⟩, ⟨_, _, _, _⟩] := rfl
    rw [Guarded, hrun]
    simp only [List.forall_mem_cons]
    refine ⟨trivial, trivial, trivial, trivial, ?_, trivial, fun t ht => by cases ht⟩
    intro c hc
    cases hc
    rfl

/-- The callback returns `false`: the socket is gone when the thread's entry is removed. -/
theorem null_socket_asked :
    ¬ ∀ (actions : List (AcceptAction ℕ)),
      ∀ t ∈ transitions MultiThreaded.step (make 100 10 true false) actions,
        t.after.Accounted ∧ t.output ≠ .nullSocket ∧ t.output ≠ .neverIncremented ∧
          ∀ i, t.input = .finalizeThreadElement i → i ∉ t.after.threadList := by
  intro hclaim
  have hrun : transitions (MultiThreaded.step (α := ℕ)) (make 100 10 true false)
      [.processClient 7, .enter 0, .postInitConnection 0 true false 7,
        .finalizeThreadElement 0] =
      [⟨_, _, _, _⟩, ⟨_, _, _, _⟩, ⟨_, _, _, _⟩, ⟨_, _, .nullSocket, _⟩] := rfl
  have hlast := hclaim [.processClient 7, .enter 0, .postInitConnection 0 true false 7,
    .finalizeThreadElement 0]
  rw [hrun] at hlast
  exact (hlast _ (List.getElem_mem (n := 3) (by decide))).2.1 rfl

end MultiThreaded

end Mantids
