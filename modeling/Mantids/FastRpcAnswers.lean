/-
# Which answer a call gets

The request ids of the calls are distinct, so a frame can only be for one of them, and status
and answer are stored together.  Hence a call that reports an answer reports one frame with its
own request id.

* `GoEffect`, `StepKind` — what a step can do, once for all invariants;
* `Numbered` — the request ids of the calls;
* `Sourced` — every stored and every reported answer comes from one frame;
* `answers_reach_own_call` — the claim about whole runs.
-/
import Mantids.FastRpcCall

namespace Mantids

namespace FastRPC3

open Run

variable {env : Env} {s s' : RpcState}

/-! ## What a step can do -/

/-- The report of an answer. -/
def IsAnswer (e : ErrorReport) : Prop := ∃ executionStatus, e = answerReport executionStatus

/-- The reports that an answer can lead to. -/
def ExecutionError.ofAnswer : ExecutionError → Bool
  | success | remoteQueueOverflow | methodNotFound => true
  | _ => false

/-- The call has no request id yet. -/
def Pc.early : Pc → Bool
  | opening _ | opened => true
  | _ => false

/-- What a step of a call does to the ids, the records and its own outcome. -/
structure GoEffect (k k' : Connection) (c c' : ExecCall) : Prop where
  requestId : c.pc ≠ .opened →
    c'.requestId = c.requestId ∧ k'.requestIdCounter = k.requestIdCounter
  opened : c.pc = .opened →
    c'.requestId = k.requestIdCounter ∧ k'.requestIdCounter = k.requestIdCounter + 1
  pending : c.pc ≠ .numbered → c.pc ≠ .left → k'.pendingRequests = k.pendingRequests
  numbered : c.pc = .numbered → k'.pendingRequests = insert c.requestId k.pendingRequests
  left : c.pc = .left → k' = k.forget c.requestId
  records : c.pc ≠ .left → k'.answers = k.answers ∧ k'.executionStatus = k.executionStatus
  outcome : (c'.error = c.error ∧ c'.r = c.r) ∨
    (∃ e : ExecutionError, e.ofAnswer = false ∧ c'.error = e.report) ∨
    ∃ notified answer, c.pc = .waiting notified ∧ k.answers c.requestId = some answer ∧
      c'.r = answer ∧ c'.error = answerReport ((k.executionStatus c.requestId).getD 0)
  early : c'.pc.early = true → c.pc.early = true ∧ c'.error = c.error

/-- Everything that a step of a call can do. -/
inductive Goes (env : Env) (m : SafeMap String Unit ℕ) (k : Connection) (i : ℕ) (c : ExecCall) :
    SafeMap String Unit ℕ → Connection → ExecCall → Prop
  | opens {tries : ℕ} {m' : SafeMap String Unit ℕ} (hpc : c.pc = .opening tries)
      (hopen : m.openElement env.connectionId = (some (), m')) :
      Goes env m k i c m' k { c with pc := .opened, opens := c.opens + 1 }
  | givesUp {tries : ℕ} {m' : SafeMap String Unit ℕ} (hpc : c.pc = .opening tries)
      (hopen : m.openElement env.connectionId = (none, m')) :
      Goes env m k i c m' k
        { c with pc := .returned, error := ExecutionError.peerNotFound.report }
  | triesAgain {tries : ℕ} {m' : SafeMap String Unit ℕ} (hpc : c.pc = .opening tries)
      (hopen : m.openElement env.connectionId = (none, m')) :
      Goes env m k i c m' k { c with pc := .opening (tries + 1) }
  | numbers (hpc : c.pc = .opened) (hlt : k.requestIdCounter + 1 < 2 ^ 64) :
      Goes env m k i c m { k with requestIdCounter := k.requestIdCounter + 1 }
        { c with pc := .numbered, requestId := k.requestIdCounter }
  | registers (hpc : c.pc = .numbered) : Goes env m k i c m (register k c).1 (register k c).2
  | locks (hpc : c.pc = .registered) (hfree : k.socketMutex = none) :
      Goes env m k i c m { k with socketMutex := some (.call i) } { c with pc := .sending }
  | sends {stream : SocketStream.Writer} (hpc : c.pc = .sending) :
      Goes env m k i c m { k with stream := stream } { c with pc := .sent }
  | sendFails {stream : SocketStream.Writer} (hpc : c.pc = .sending)
      (hfails : (writeQuery env.config (.ofNat c.requestId) c.args.methodName c.args.output
        c.args.extraJWTTokenAuth k.stream).1 = false) :
      Goes env m k i c m { k with stream := stream }
        { c with pc := .returned, error := ExecutionError.dataTransmissionFailure.report }
  | unlocks (hpc : c.pc = .sent) : Goes env m k i c m (unlockSocket k c).1 (unlockSocket k c).2
  | waits (hpc : c.pc = .beforeWait) : Goes env m k i c m k { c with pc := .waiting false }
  | wakes {notified : Bool} (hpc : c.pc = .waiting notified) : Goes env m k i c m k (wake k c)
  | erases (hpc : c.pc = .left) :
      Goes env m k i c m (k.forget c.requestId) { c with pc := .cleaned }
  | releases (hpc : c.pc = .cleaned) :
      Goes env m k i c (releaseConnection env m c).1 k (releaseConnection env m c).2

/-- **Inversion.** -/
theorem goes_of_go {m m' : SafeMap String Unit ℕ} {k k' : Connection} {i : ℕ} {c c' : ExecCall}
    (h : go env m k i c = some (m', k', c')) : Goes env m k i c m' k' c' := by
  cases hpc : c.pc with
  | opening tries =>
    rcases hopen : m.openElement env.connectionId with ⟨_ | item, m₁⟩
    · simp only [go, hpc, openConnection, hopen] at h
      split_ifs at h
      · cases h
        exact .givesUp hpc hopen
      · cases h
        exact .triesAgain hpc hopen
    · simp only [go, hpc, openConnection, hopen] at h
      cases h
      exact .opens hpc hopen
  | opened =>
    simp only [go, hpc, takeRequestId] at h
    split_ifs at h with hlt
    · cases h
      exact .numbers hpc hlt
    · cases h
  | registered =>
    simp only [go, hpc, lockSocket] at h
    split_ifs at h with hfree
    · cases h
      exact .locks hpc hfree
    · cases h
  | sending =>
    simp only [go, hpc, transmit] at h
    split_ifs at h with hok
    · cases h
      exact .sends hpc
    · cases h
      exact .sendFails hpc (eq_false_of_ne_true hok)
  | numbered =>
    simp only [go, hpc] at h
    cases h
    exact .registers hpc
  | sent =>
    simp only [go, hpc] at h
    cases h
    exact .unlocks hpc
  | beforeWait =>
    simp only [go, hpc] at h
    cases h
    exact .waits hpc
  | waiting notified =>
    simp only [go, hpc] at h
    cases h
    exact .wakes hpc
  | left =>
    simp only [go, hpc, cleanUp] at h
    cases h
    exact .erases hpc
  | cleaned =>
    simp only [go, hpc] at h
    cases h
    exact .releases hpc
  | returned =>
    simp only [go, hpc] at h
    cases h

theorem go_effect {m m' : SafeMap String Unit ℕ} {k k' : Connection} {i : ℕ} {c c' : ExecCall}
    (h : go env m k i c = some (m', k', c')) : GoEffect k k' c c' := by
  cases goes_of_go h with
  | givesUp hpc =>
    constructor <;> simp [Pc.early, hpc]
    exact .inr ⟨.peerNotFound, by decide, rfl⟩
  | sendFails hpc =>
    constructor <;> simp [Pc.early, hpc]
    exact .inr ⟨.dataTransmissionFailure, by decide, rfl⟩
  | wakes hpc =>
    unfold wake
    split
    · rename_i answer hanswer
      constructor <;> simp [Pc.early, hpc, hanswer]
    · split_ifs
      · constructor <;> simp [Pc.early, hpc]
        exact .inr (.inl ⟨.connectionLost, by decide, rfl⟩)
      · constructor <;> simp [Pc.early, hpc]
  | releases hpc =>
    unfold releaseConnection
    constructor <;> simp only [hpc]
    all_goals try simp [Pc.early]
    by_cases hnone : c.error.succeed = none
    · exact .inr ⟨.unknown, by decide, if_pos hnone⟩
    · exact .inl fun h => absurd h hnone
  | registers hpc => constructor <;> simp [register, Pc.early, hpc]
  | unlocks hpc => constructor <;> simp [unlockSocket, Pc.early, hpc]
  | _ hpc => constructor <;> simp [Pc.early, hpc]

/-- A step of a call leaves the records of the other ids alone. -/
theorem GoEffect.frame {k k' : Connection} {c c' : ExecCall} (he : GoEffect k k' c c') {id : ℕ}
    (hne : id ≠ c.requestId) :
    (id ∈ k'.pendingRequests ↔ id ∈ k.pendingRequests) ∧ k'.answers id = k.answers id ∧
      k'.executionStatus id = k.executionStatus id := by
  by_cases hleft : c.pc = .left
  · rw [he.left hleft, Connection.pendingRequests_forget, Connection.answers_forget,
      Connection.executionStatus_forget, if_neg hne, if_neg hne, Finset.mem_erase]
    exact ⟨and_iff_right hne, rfl, rfl⟩
  · obtain ⟨hanswers, hstatuses⟩ := he.records hleft
    rw [hanswers, hstatuses]
    refine ⟨?_, rfl, rfl⟩
    by_cases hnum : c.pc = .numbered
    · rw [he.numbered hnum, Finset.mem_insert]
      exact or_iff_right hne
    · rw [he.pending hnum hleft]

/-- What a step leaves alone that is neither a step of a call nor an answer to a pending
request. -/
structure Quiet (env : Env) (s s' : RpcState) : Prop where
  calls : s'.calls = s.calls ∨ s'.calls = s.calls.map ExecCall.notify
  requestIdCounter : s'.connection.requestIdCounter = s.connection.requestIdCounter
  pendingRequests : s'.connection.pendingRequests = s.connection.pendingRequests
  answers : s'.connection.answers = s.connection.answers
  executionStatus : s'.connection.executionStatus = s.connection.executionStatus
  socketMutex : ∀ i,
    s'.connection.socketMutex = some (.call i) ↔ s.connection.socketMutex = some (.call i)
  readers : s'.connectionMapById.readers env.connectionId
    = s.connectionMapById.readers env.connectionId

/-- The kinds of steps, each with the state it leads to. -/
inductive StepKind (env : Env) (s : RpcState) : RpcAction → RpcState → Prop where
  | call (args : CallArgs) : StepKind env s (.call args)
      { s with calls := s.calls ++ [startCall env args] }
  | go {i : ℕ} {c c' : ExecCall} {m : SafeMap String Unit ℕ} {k : Connection}
      (hc : s.calls[i]? = some c)
      (h : go env s.connectionMapById s.connection i c = some (m, k, c')) :
      StepKind env s (.go i)
        { s with connectionMapById := m, connection := k, calls := s.calls.set i c' }
  | timeOut {i : ℕ} {c : ExecCall} (notified : Bool) (hc : s.calls[i]? = some c)
      (hpc : c.pc = .waiting notified) :
      StepKind env s (.timeOut i)
        { s with
          calls := s.calls.set i { c with pc := .left, error := ExecutionError.timeout.report } }
  | stored {f : AnswerFrame} {answer : Json}
      (hpending : f.requestId.toNat ∈ s.connection.pendingRequests)
      (hparse : env.parse (cStr f.payloadBytes) = some answer) :
      StepKind env s (.receive f)
        { s with
          connection := s.connection.store f.requestId.toNat f.executionStatus answer }.notifyAll
  | malformed {f : AnswerFrame} (hpending : f.requestId.toNat ∈ s.connection.pendingRequests)
      (hparse : env.parse (cStr f.payloadBytes) = none) :
      StepKind env s (.receive f)
        { s with connection := s.connection.forget f.requestId.toNat }
  | quiet {a : RpcAction} {s' : RpcState} (h : Quiet env s s') : StepKind env s a s'

theorem Quiet.refl (env : Env) (s : RpcState) : Quiet env s s :=
  ⟨.inl rfl, rfl, rfl, rfl, rfl, fun _ => Iff.rfl, rfl⟩

theorem step_kind {a : RpcAction} (h : step env s a = some (s', ())) : StepKind env s a s' := by
  cases a with
  | call args =>
    simp only [step] at h
    cases h
    exact .call args
  | go i =>
    simp only [step] at h
    split at h
    · rename_i c hc
      obtain ⟨⟨m, k, c'⟩, hgo, hs⟩ := Option.map_eq_some_iff.mp h
      cases hs
      exact .go hc hgo
    · cases h
  | timeOut i =>
    simp only [step] at h
    split at h
    · rename_i c hc
      obtain ⟨c', htime, hs⟩ := Option.map_eq_some_iff.mp h
      cases hs
      unfold timeOut at htime
      split at htime
      · rename_i notified hpc
        cases htime
        exact .timeOut notified hc hpc
      · cases htime
    · cases h
  | receive f =>
    simp only [step] at h
    split_ifs at h
    cases h
    unfold processIncomingAnswer
    split_ifs with hpending
    · split
      · rename_i answer hparse
        exact .stored hpending hparse
      · rename_i hparse
        exact .malformed hpending hparse
    · exact .quiet (Quiet.refl env s)
  | lockSocket =>
    simp only [step] at h
    split_ifs at h with hfree
    · cases h
      exact .quiet ⟨.inl rfl, rfl, rfl, rfl, rfl, fun i => by simp [hfree], rfl⟩
  | unlockSocket =>
    simp only [step] at h
    split_ifs at h with hother
    · cases h
      exact .quiet ⟨.inl rfl, rfl, rfl, rfl, rfl, fun i => by simp [hother], rfl⟩
  | terminate =>
    simp only [step] at h
    split_ifs at h
    cases h
    exact .quiet ⟨.inl rfl, rfl, rfl, rfl, rfl, fun _ => Iff.rfl, rfl⟩
  | notifyTerminated =>
    simp only [step] at h
    split_ifs at h
    cases h
    exact .quiet ⟨.inr rfl, rfl, rfl, rfl, rfl, fun _ => Iff.rfl, rfl⟩
  | destroy =>
    simp only [step] at h
    split_ifs at h
    · have hreaders := s.connectionMapById.readers_destroyElement env.connectionId env.connectionId
      split at h
      · rename_i m hdestroy
        cases h
        rw [hdestroy] at hreaders
        exact .quiet ⟨.inl rfl, rfl, rfl, rfl, rfl, fun _ => Iff.rfl, hreaders⟩
      · rename_i m _ hdestroy
        cases h
        rw [hdestroy] at hreaders
        exact .quiet ⟨.inl rfl, rfl, rfl, rfl, rfl, fun _ => Iff.rfl, hreaders⟩
  | finishDestroy =>
    simp only [step] at h
    split_ifs at h
    · obtain ⟨m, hfinish, hs⟩ := Option.map_eq_some_iff.mp h
      cases hs
      have hreaders := SafeMap.readers_finishDestroy hfinish env.connectionId
      exact .quiet ⟨.inl rfl, rfl, rfl, rfl, rfl, fun _ => Iff.rfl, hreaders⟩

/-! ## The request ids -/

theorem getElem?_set_of_some {α : Type*} {l : List α} {i : ℕ} {x : α} (h : l[i]? = some x) (y : α)
    (j : ℕ) : (l.set i y)[j]? = if i = j then some y else l[j]? := by
  obtain ⟨hlt, -⟩ := List.getElem?_eq_some_iff.mp h
  rw [List.getElem?_set, if_pos hlt]

/-- Every call with an id has its own, and the counter is ahead of them. -/
structure Numbered (s : RpcState) : Prop where
  counter : 1 ≤ s.connection.requestIdCounter
  below : ∀ {i : ℕ} {c : ExecCall}, s.calls[i]? = some c →
    c.requestId < s.connection.requestIdCounter
  distinct : ∀ {i j : ℕ} {c d : ExecCall}, s.calls[i]? = some c → s.calls[j]? = some d →
    c.requestId ≠ 0 → c.requestId = d.requestId → i = j

/-- The ids only depend on the ids of the calls and the counter. -/
theorem Numbered.congr (h : Numbered s)
    (hcounter : s'.connection.requestIdCounter = s.connection.requestIdCounter)
    (hcalls : ∀ (i : ℕ) (c' : ExecCall), s'.calls[i]? = some c' →
      c'.requestId = 0 ∨ ∃ c, s.calls[i]? = some c ∧ c'.requestId = c.requestId) :
    Numbered s' := by
  refine ⟨hcounter ▸ h.counter, ?_, ?_⟩
  · intro i c' hc'
    rw [hcounter]
    obtain hzero | ⟨c, hc, hid⟩ := hcalls i c' hc'
    · rw [hzero]
      exact h.counter
    · rw [hid]
      exact h.below hc
  · intro i j c' d' hc' hd' hne heq
    obtain hzero | ⟨c, hc, hid⟩ := hcalls i c' hc'
    · exact absurd hzero hne
    obtain hzero | ⟨d, hd, hid'⟩ := hcalls j d' hd'
    · exact absurd (heq.trans hzero) hne
    · exact h.distinct hc hd (hid ▸ hne) (by rw [← hid, heq, hid'])

theorem getElem?_map_notify {calls : List ExecCall} {i : ℕ} {c' : ExecCall}
    (h : (calls.map ExecCall.notify)[i]? = some c') :
    ∃ c, calls[i]? = some c ∧ c' = c.notify := by
  rw [List.getElem?_map] at h
  obtain ⟨c, hc, rfl⟩ := Option.map_eq_some_iff.mp h
  exact ⟨c, hc, rfl⟩

theorem startCall_requestId (env : Env) (args : CallArgs) : (startCall env args).requestId = 0 := by
  unfold startCall
  split_ifs
  · rfl
  · rfl
  · rfl

theorem Numbered.step {a : RpcAction} (h : Numbered s) (hs : step env s a = some (s', ())) :
    Numbered s' := by
  cases step_kind hs with
  | call args =>
    refine h.congr rfl fun i c' hc' => ?_
    rw [List.getElem?_append] at hc'
    split_ifs at hc' with hlt
    · exact .inr ⟨c', hc', rfl⟩
    · left
      have hmem := List.mem_of_getElem? hc'
      rw [List.mem_singleton.mp hmem]
      exact startCall_requestId env args
  | @go i c c' m k hc hgo =>
    have he := go_effect hgo
    by_cases hopened : c.pc = .opened
    · obtain ⟨hid, hcounter⟩ := he.opened hopened
      -- The new id is the counter, and the ids of the others are below it.
      have hcalls : ∀ (j : ℕ) (d : ExecCall), (s.calls.set i c')[j]? = some d →
          (j = i ∧ d.requestId = s.connection.requestIdCounter) ∨
          (j ≠ i ∧ s.calls[j]? = some d ∧ d.requestId < s.connection.requestIdCounter) := by
        intro j d hd
        rw [getElem?_set_of_some hc] at hd
        split_ifs at hd with hij
        · cases hd
          exact .inl ⟨hij.symm, hid⟩
        · exact .inr ⟨Ne.symm hij, hd, h.below hd⟩
      refine ⟨?_, ?_, ?_⟩
      · show 1 ≤ k.requestIdCounter
        omega
      · intro j d hd
        show d.requestId < k.requestIdCounter
        rcases hcalls j d hd with ⟨-, hd'⟩ | ⟨-, -, hd'⟩ <;> omega
      · intro j j' d d' hd hd' hne heq
        rcases hcalls j d hd with ⟨hj, hdid⟩ | ⟨hj, hdold, hdid⟩
        · rcases hcalls j' d' hd' with ⟨hj', -⟩ | ⟨-, -, hdid'⟩
          · rw [hj, hj']
          · omega
        · rcases hcalls j' d' hd' with ⟨-, hdid'⟩ | ⟨-, hdold', -⟩
          · omega
          · exact h.distinct hdold hdold' hne heq
    · obtain ⟨hid, hcounter⟩ := he.requestId hopened
      refine h.congr hcounter fun j d hd => .inr ?_
      rw [getElem?_set_of_some hc] at hd
      split_ifs at hd with hij
      · subst hij
        cases hd
        exact ⟨c, hc, hid⟩
      · exact ⟨d, hd, rfl⟩
  | @timeOut i c notified hc hpc =>
    refine h.congr rfl fun j d hd => .inr ?_
    rw [getElem?_set_of_some hc] at hd
    split_ifs at hd with hij
    · subst hij
      cases hd
      exact ⟨c, hc, rfl⟩
    · exact ⟨d, hd, rfl⟩
  | stored hpending hparse =>
    refine h.congr rfl fun j d hd => .inr ?_
    obtain ⟨c, hc, rfl⟩ := getElem?_map_notify hd
    exact ⟨c, hc, c.requestId_notify⟩
  | malformed hpending hparse => exact h.congr rfl fun j d hd => .inr ⟨d, hd, rfl⟩
  | quiet hq =>
    refine h.congr hq.requestIdCounter fun j d hd => .inr ?_
    obtain hcalls | hcalls := hq.calls
    · rw [hcalls] at hd
      exact ⟨d, hd, rfl⟩
    · rw [hcalls] at hd
      obtain ⟨c, hc, rfl⟩ := getElem?_map_notify hd
      exact ⟨c, hc, c.requestId_notify⟩

/-! ## Where an answer comes from -/

/-- A transition in which the frame of an answer arrives while its request is pending. -/
def Delivers (env : Env) (t : Transition RpcState RpcAction Unit) (requestId : ℕ)
    (executionStatus : UInt8) (answer : Json) : Prop :=
  ∃ f : AnswerFrame, t.input = .receive f ∧ f.requestId.toNat = requestId ∧
    requestId ∈ t.before.connection.pendingRequests ∧
    env.parse (cStr f.payloadBytes) = some answer ∧ f.executionStatus = executionStatus

theorem succeed_of_isAnswer {e : ErrorReport} (h : IsAnswer e) : e.succeed ≠ none := by
  obtain ⟨executionStatus, rfl⟩ := h
  unfold answerReport
  split_ifs <;> simp [ExecutionError.report]

theorem not_isAnswer_empty : ¬ IsAnswer {} := fun h => succeed_of_isAnswer h rfl

theorem errorId_answerReport (executionStatus : UInt8) :
    (answerReport executionStatus).errorId = none ∨
      ∃ e : ExecutionError, e.ofAnswer = true ∧
        (answerReport executionStatus).errorId = some e.code := by
  unfold answerReport
  split_ifs
  · exact .inr ⟨.success, rfl, rfl⟩
  · exact .inr ⟨.remoteQueueOverflow, rfl, rfl⟩
  · exact .inr ⟨.methodNotFound, rfl, rfl⟩
  · exact .inl rfl

theorem code_injective : Function.Injective ExecutionError.code := by
  intro e e' h
  cases e <;> cases e' <;> first | rfl | exact absurd h (by decide)

theorem not_isAnswer_report {e : ExecutionError} (h : e.ofAnswer = false) :
    ¬ IsAnswer e.report := by
  rintro ⟨executionStatus, heq⟩
  have hid : some e.code = (answerReport executionStatus).errorId :=
    congrArg ErrorReport.errorId heq
  obtain hnone | ⟨e', he', hcode⟩ := errorId_answerReport executionStatus
  · rw [hnone] at hid
    cases hid
  · rw [hcode] at hid
    obtain rfl := code_injective (Option.some.inj hid)
    rw [h] at he'
    cases he'

theorem errorId_report_ne {e : ExecutionError} (h : e.ofAnswer = false) :
    e.report.errorId ≠ some ExecutionError.success.code := by
  intro hid
  obtain rfl := code_injective (Option.some.inj hid)
  cases h

/-- A new call has reported nothing that an answer says. -/
theorem startCall_error (env : Env) (args : CallArgs) :
    (startCall env args).error = {} ∨
      ∃ e : ExecutionError, e.ofAnswer = false ∧ (startCall env args).error = e.report := by
  unfold startCall
  split_ifs
  · exact .inl rfl
  · exact .inr ⟨.payloadTooLarge, by decide, rfl⟩
  · exact .inl rfl

theorem startCall_early (env : Env) (args : CallArgs) (h : (startCall env args).pc.early = true) :
    (startCall env args).error = {} := by
  unfold startCall at h ⊢
  split_ifs at h ⊢
  · rfl
  · cases h
  · rfl

/-- What the invariant says of one call. -/
structure Reports (env : Env) (past : List (Transition RpcState RpcAction Unit)) (c : ExecCall) :
    Prop where
  taken : IsAnswer c.error → ∃ executionStatus, c.error = answerReport executionStatus ∧
    ∃ t ∈ past, Delivers env t c.requestId executionStatus c.r
  /-- Only an answer reports a success. -/
  success : c.error.errorId = some ExecutionError.success.code → IsAnswer c.error
  /-- A call has no report before it has an id. -/
  early : c.pc.early = true → c.error = {}

/-- A report that no answer leads to. -/
theorem Reports.of_error {past : List (Transition RpcState RpcAction Unit)} {c : ExecCall}
    (h : c.error = {} ∨ ∃ e : ExecutionError, e.ofAnswer = false ∧ c.error = e.report)
    (hearly : c.pc.early = true → c.error = {}) : Reports env past c := by
  refine ⟨fun hanswer => ?_, fun hsuccess => ?_, hearly⟩
  · obtain hnone | ⟨e, he, hreport⟩ := h
    · exact absurd (hnone ▸ hanswer) not_isAnswer_empty
    · exact absurd (hreport ▸ hanswer) (not_isAnswer_report he)
  · obtain hnone | ⟨e, he, hreport⟩ := h
    · rw [hnone] at hsuccess
      cases hsuccess
    · exact absurd (hreport ▸ hsuccess) (errorId_report_ne he)

theorem Reports.mono {past past' : List (Transition RpcState RpcAction Unit)} {c : ExecCall}
    (h : Reports env past c) (hsub : past ⊆ past') : Reports env past' c := by
  refine ⟨fun hanswer => ?_, h.success, h.early⟩
  obtain ⟨executionStatus, hreport, t, ht, hd⟩ := h.taken hanswer
  exact ⟨executionStatus, hreport, t, hsub ht, hd⟩

theorem Reports.notify {past : List (Transition RpcState RpcAction Unit)} {c : ExecCall}
    (h : Reports env past c) : Reports env past c.notify := by
  have hearly : c.notify.pc.early = true → c.pc.early = true := by
    unfold ExecCall.notify
    split
    · intro hfalse
      cases hfalse
    · exact id
  refine ⟨?_, ?_, ?_⟩
  · rw [c.error_notify, c.requestId_notify, c.r_notify]
    exact h.taken
  · rw [c.error_notify]
    exact h.success
  · rw [c.error_notify]
    exact fun he => h.early (hearly he)

/-- Status and answer of a request come from one frame in the past, and so do the status and
answer that a call reports. -/
structure Sourced (env : Env) (past : List (Transition RpcState RpcAction Unit)) (s : RpcState) :
    Prop where
  stored : ∀ (requestId : ℕ) (answer : Json), s.connection.answers requestId = some answer →
    ∃ executionStatus, s.connection.executionStatus requestId = some executionStatus ∧
      ∃ t ∈ past, Delivers env t requestId executionStatus answer
  reports : ∀ (i : ℕ) (c : ExecCall), s.calls[i]? = some c → Reports env past c

/-- A step of a call keeps what the invariant says of it. -/
theorem Reports.go {past : List (Transition RpcState RpcAction Unit)} {i : ℕ} {c c' : ExecCall}
    {m : SafeMap String Unit ℕ} {k : Connection} (h : Sourced env past s)
    (hc : s.calls[i]? = some c)
    (hgo : go env s.connectionMapById s.connection i c = some (m, k, c')) :
    Reports env past c' := by
  have hold := h.reports i c hc
  have he := go_effect hgo
  obtain ⟨herror, hr⟩ | ⟨e, hanswer, herror⟩ | ⟨notified, answer, hpc, hanswer, hr, herror⟩ :=
    he.outcome
  · refine ⟨fun hans => ?_, fun hsuccess => ?_, fun hearly => ?_⟩
    · rw [herror] at hans ⊢
      -- A call with a report is past the point where its id changes.
      have hne : c.pc ≠ .opened := by
        intro hopened
        have hnone := hold.early (by rw [hopened]; rfl)
        rw [hnone] at hans
        exact not_isAnswer_empty hans
      rw [(he.requestId hne).1, hr]
      exact hold.taken hans
    · rw [herror] at hsuccess ⊢
      exact hold.success hsuccess
    · rw [herror]
      exact hold.early (he.early hearly).1
  · refine Reports.of_error (.inr ⟨e, hanswer, herror⟩) fun hearly => ?_
    obtain ⟨hearly, hsame⟩ := he.early hearly
    rw [hsame]
    exact hold.early hearly
  · obtain ⟨executionStatus, hstatus, hsource⟩ := h.stored c.requestId answer hanswer
    rw [hstatus, Option.getD_some] at herror
    have hid : c'.requestId = c.requestId := (he.requestId (by rw [hpc]; simp)).1
    refine ⟨fun _ => ⟨executionStatus, herror, ?_⟩, fun _ => ⟨executionStatus, herror⟩,
      fun hearly => ?_⟩
    · rw [hid, hr]
      exact hsource
    · have hfalse := (he.early hearly).1
      rw [hpc] at hfalse
      cases hfalse

theorem Sourced.step {past : List (Transition RpcState RpcAction Unit)} {a : RpcAction}
    (h : Sourced env past s) (hs : step env s a = some (s', ())) :
    Sourced env (past ++ [⟨s, a, (), s'⟩]) s' := by
  have hsub : past ⊆ past ++ [⟨s, a, (), s'⟩] := List.subset_append_left _ _
  have hstored : ∀ (requestId : ℕ) (answer : Json),
      s.connection.answers requestId = some answer →
      ∃ executionStatus, s.connection.executionStatus requestId = some executionStatus ∧
        ∃ t ∈ past ++ [⟨s, a, (), s'⟩], Delivers env t requestId executionStatus answer := by
    intro requestId answer hanswer
    obtain ⟨executionStatus, hstatus, t, ht, hd⟩ := h.stored requestId answer hanswer
    exact ⟨executionStatus, hstatus, t, hsub ht, hd⟩
  cases step_kind hs with
  | call args =>
    refine ⟨hstored, fun i c hc => ?_⟩
    rw [List.getElem?_append] at hc
    split_ifs at hc with hlt
    · exact (h.reports i c hc).mono hsub
    · rw [List.mem_singleton.mp (List.mem_of_getElem? hc)]
      exact Reports.of_error (startCall_error env args) (startCall_early env args)
  | @go i c c' m k hc hgo =>
    have he := go_effect hgo
    refine ⟨fun requestId answer hanswer => ?_, fun j d hd => ?_⟩
    · by_cases hleft : c.pc = .left
      · obtain rfl := he.left hleft
        rw [Connection.answers_forget] at hanswer
        rw [Connection.executionStatus_forget]
        split_ifs at hanswer ⊢ with hid
        exact hstored requestId answer hanswer
      · obtain ⟨hanswers, hstatus⟩ := he.records hleft
        rw [hanswers] at hanswer
        rw [hstatus]
        exact hstored requestId answer hanswer
    · rw [getElem?_set_of_some hc] at hd
      split_ifs at hd with hij
      · cases hd
        exact (Reports.go h hc hgo).mono hsub
      · exact (h.reports j d hd).mono hsub
  | @timeOut i c notified hc hpc =>
    refine ⟨hstored, fun j d hd => ?_⟩
    rw [getElem?_set_of_some hc] at hd
    split_ifs at hd with hij
    · cases hd
      exact Reports.of_error (.inr ⟨.timeout, by decide, rfl⟩) (fun hearly => by cases hearly)
    · exact (h.reports j d hd).mono hsub
  | @stored f answer hpending hparse =>
    refine ⟨fun requestId answer' hanswer => ?_, fun j d hd => ?_⟩
    · rw [show (RpcState.notifyAll _).connection = s.connection.store f.requestId.toNat
        f.executionStatus answer from rfl, Connection.answers_store] at hanswer
      rw [show (RpcState.notifyAll _).connection = s.connection.store f.requestId.toNat
        f.executionStatus answer from rfl, Connection.executionStatus_store]
      split_ifs at hanswer ⊢ with hid
      · -- The frame that has just arrived.
        cases hanswer
        subst hid
        exact ⟨f.executionStatus, rfl, _, List.mem_append_right _ (List.mem_singleton.mpr rfl), f,
          rfl, rfl, hpending, hparse, rfl⟩
      · exact hstored requestId answer' hanswer
    · obtain ⟨c, hc, rfl⟩ := getElem?_map_notify hd
      exact ((h.reports j c hc).mono hsub).notify
  | @malformed f hpending hparse =>
    refine ⟨fun requestId answer hanswer => ?_, fun j d hd => (h.reports j d hd).mono hsub⟩
    rw [Connection.answers_forget] at hanswer
    rw [Connection.executionStatus_forget]
    split_ifs at hanswer ⊢ with hid
    exact hstored requestId answer hanswer
  | quiet hq =>
    refine ⟨fun requestId answer hanswer => ?_, fun j d hd => ?_⟩
    · rw [hq.answers] at hanswer
      rw [hq.executionStatus]
      exact hstored requestId answer hanswer
    · obtain hcalls | hcalls := hq.calls
      · rw [hcalls] at hd
        exact (h.reports j d hd).mono hsub
      · rw [hcalls] at hd
        obtain ⟨c, hc, rfl⟩ := getElem?_map_notify hd
        exact ((h.reports j c hc).mono hsub).notify

theorem numbered_fresh (m : SafeMap String Unit ℕ) (stream : SocketStream.Writer) :
    Numbered (fresh m stream) := by
  refine ⟨Nat.le_refl 1, ?_, ?_⟩
  · intro i c hc
    simp [fresh] at hc
  · intro i j c d hc
    simp [fresh] at hc

theorem sourced_fresh (env : Env) (m : SafeMap String Unit ℕ) (stream : SocketStream.Writer) :
    Sourced env [] (fresh m stream) := by
  refine ⟨?_, ?_⟩
  · intro requestId answer hanswer
    simp [fresh] at hanswer
  · intro i c hc
    simp [fresh] at hc

/-- An answer that is received has an id, and is processed. -/
theorem receive_spec {f : AnswerFrame} (h : step env s (.receive f) = some (s', ())) :
    f.requestId.toNat ≠ 0 ∧ s' = processIncomingAnswer env s f := by
  simp only [step] at h
  split_ifs at h with hguard
  exact ⟨fun hzero => hguard.2 (UInt64.toNat_inj.mp hzero),
    (congrArg Prod.fst (Option.some.inj h)).symm⟩

/-- An answer is never taken for the id 0. -/
theorem Delivers.requestId_ne_zero {t : Transition RpcState RpcAction Unit} {requestId : ℕ}
    {executionStatus : UInt8} {answer : Json} (h : Delivers env t requestId executionStatus answer)
    (hstep : step env t.before t.input = some (t.after, t.output)) : requestId ≠ 0 := by
  obtain ⟨f, hinput, hid, -⟩ := h
  rw [hinput] at hstep
  rw [← hid]
  exact (receive_spec hstep).1

/-- What holds of the ids and the reports along a run. -/
theorem run_sourced {m : SafeMap String Unit ℕ} {stream : SocketStream.Writer}
    {actions : List RpcAction} {pre post : List (Transition RpcState RpcAction Unit)}
    {t : Transition RpcState RpcAction Unit}
    (hrun : transitions (step env) (fresh m stream) actions = pre ++ t :: post) :
    Numbered t.after ∧ Sourced env (pre ++ [t]) t.after := by
  have h := invariant_past (fun past s => Numbered s ∧ Sourced env past s)
    (fun past s a s' _ h hs => ⟨h.1.step hs, h.2.step hs⟩) []
    ⟨numbered_fresh m stream, sourced_fresh env m stream⟩ hrun
  rw [List.nil_append] at h
  exact h.2

/-- **Answers reach their own call.**  In every run, a call that reports `EXEC_SUCCESS` has its
value and its status from one frame with its own request id that arrived while the id was
pending; every other report of an answer comes in the same way, and no other call has the id. -/
theorem answers_reach_own_call (env : Env) (m : SafeMap String Unit ℕ)
    (stream : SocketStream.Writer) (actions : List RpcAction)
    (pre post : List (Transition RpcState RpcAction Unit)) (t : Transition RpcState RpcAction Unit)
    (hrun : transitions (step env) (fresh m stream) actions = pre ++ t :: post) (i : ℕ)
    (c : ExecCall) (hc : t.after.calls[i]? = some c) :
    (c.error.errorId = some ExecutionError.success.code →
      ∃ u ∈ pre ++ [t], Delivers env u c.requestId execStatusSuccess c.r) ∧
    (IsAnswer c.error → ∃ executionStatus, c.error = answerReport executionStatus ∧
      (∃ u ∈ pre ++ [t], Delivers env u c.requestId executionStatus c.r) ∧
      ∀ (j : ℕ) (d : ExecCall), t.after.calls[j]? = some d → d.requestId = c.requestId →
        j = i) := by
  obtain ⟨hnumbered, hsourced⟩ := run_sourced hrun
  have hreports := hsourced.reports i c hc
  constructor
  · intro hsuccess
    obtain ⟨executionStatus, hreport, hsource⟩ := hreports.taken (hreports.success hsuccess)
    have hstatus : executionStatus = execStatusSuccess := by
      rw [hreport] at hsuccess
      unfold answerReport at hsuccess
      split_ifs at hsuccess with hs hq hm
      · exact hs
      all_goals exact absurd hsuccess (by decide)
    rwa [hstatus] at hsource
  · intro hanswer
    obtain ⟨executionStatus, hreport, u, hu, hd⟩ := hreports.taken hanswer
    refine ⟨executionStatus, hreport, ⟨u, hu, hd⟩, ?_⟩
    intro j d hdj hid
    have hmem : u ∈ transitions (step env) (fresh m stream) actions := by
      rw [hrun, ← List.singleton_append, ← List.append_assoc]
      exact List.mem_append_left _ hu
    have hne : c.requestId ≠ 0 := hd.requestId_ne_zero (step_of_mem_transitions hmem)
    exact (hnumbered.distinct hc hdj hne hid.symm).symm

/-- A reader of JSON texts that knows no empty text, and tells `f` from others. -/
def sampleEnv : Env :=
  { connectionId := "SERVER"
    parse := fun s => if s = [] then none else some (.bool (s ≠ [102])) }

/-- The map with the connection in it. -/
def sampleMap : SafeMap String Unit ℕ := (({} : SafeMap String Unit ℕ).addElement "SERVER" ()).2

/-- One call up to its wait. -/
def sampleAsked : List RpcAction :=
  .call { methodName := [112], output := [123, 125] } :: List.replicate 7 (.go 0)

/-- The answer, and the call to its end. -/
def sampleAnswered : List RpcAction :=
  [.receive ⟨1, execStatusSuccess, [116]⟩, .go 0, .go 0, .go 0]

/-- Two calls at a time, the second of which is answered first. -/
def sampleCrossed : List RpcAction :=
  [.call { methodName := [112], output := [123, 125] },
    .call { methodName := [113], output := [123, 125] }] ++
  List.replicate 7 (.go 0) ++ List.replicate 7 (.go 1) ++
  [.receive ⟨2, execStatusSuccess, [102]⟩, .receive ⟨1, execStatusSuccess, [116]⟩,
    .go 0, .go 1, .go 0, .go 1, .go 0, .go 1]

theorem answers_reach_own_call_crossed :
    ∃ u ∈ transitions (step sampleEnv) (fresh sampleMap {}) sampleCrossed,
      ∃ w ∈ transitions (step sampleEnv) (fresh sampleMap {}) sampleCrossed,
        Delivers sampleEnv u 1 execStatusSuccess (.bool true) ∧
          Delivers sampleEnv w 2 execStatusSuccess (.bool false) := by
  have hrun : transitions (step sampleEnv) (fresh sampleMap {}) sampleCrossed
      = List.take 23 (transitions (step sampleEnv) (fresh sampleMap {}) sampleCrossed) ++ _ :: [] :=
    (List.take_append_drop 23 _).symm
  obtain ⟨u, hu, hd⟩ := (answers_reach_own_call sampleEnv sampleMap {} sampleCrossed _ [] _ hrun 0 _
    rfl).1 rfl
  obtain ⟨w, hw, he⟩ := (answers_reach_own_call sampleEnv sampleMap {} sampleCrossed _ [] _ hrun 1 _
    rfl).1 rfl
  rw [← hrun] at hu hw
  exact ⟨u, hu, w, hw, hd, he⟩

end FastRPC3

end Mantids
