/-
# What becomes of an answer that has arrived

The wait of `executeTask` looks at the answers only after it was woken.  An answer that is
stored while the call waits wakes it, and the call returns that answer; an answer that is stored
before the call has begun to wait wakes nobody.

* `AnswersInWait` — every answer finds its call waiting, and is the only one;
* `Answered` — the call has the answer, or is about to take it;
* `CallKind`, `call_kind` — what a step does to a call;
* `answer_not_lost` — in such a run no answer is lost.
-/
import Mantids.FastRpcAnswers

namespace Mantids

namespace FastRPC3

open Run

variable {env : Env} {s s' : RpcState} {i requestId : ℕ} {answer : Json} {executionStatus : UInt8}

/-- The call has registered its request and has not begun to wait. -/
def Pc.beforeItsWait : Pc → Bool
  | registered | sending | sent | beforeWait => true
  | _ => false

/-- The call is in its wait. -/
def Pc.inWait : Pc → Bool
  | waiting _ => true
  | _ => false

/-- The call is out of the loop of its wait. -/
def Pc.out : Pc → Bool
  | left | cleaned | returned => true
  | _ => false

/-- A well-formed answer for a pending request finds its call in the wait or out of it, nothing
arrives for a request whose answer is waiting to be taken, and a wait only times out when it has
got no notification. -/
def AnswersInWait (env : Env) (s : RpcState) : RpcAction → Prop
  | .receive f => f.requestId.toNat ∈ s.connection.pendingRequests →
      ∀ c ∈ s.calls, c.requestId = f.requestId.toNat →
        (env.parse (cStr f.payloadBytes) ≠ none → c.pc.beforeItsWait = false) ∧
        (c.pc.inWait = true → s.connection.answers c.requestId = none)
  | .timeOut i => ∀ c ∈ s.calls[i]?, c.pc = .waiting false
  | _ => True

instance (env : Env) (s : RpcState) (a : RpcAction) : Decidable (AnswersInWait env s a) := by
  cases a <;> unfold AnswersInWait <;> infer_instance

/-- The call is about to take the answer, or has taken it. -/
def Answered (s : RpcState) (i requestId : ℕ) (answer : Json) (executionStatus : UInt8) : Prop :=
  ∃ c : ExecCall, s.calls[i]? = some c ∧ c.requestId = requestId ∧
    ((c.pc = .waiting true ∧ s.connection.answers requestId = some answer ∧
        s.connection.executionStatus requestId = some executionStatus) ∨
      (c.pc.out = true ∧ c.r = answer ∧ c.error = answerReport executionStatus))

theorem notify_of_out {c : ExecCall} (h : c.pc.out = true) : c.notify = c := by
  unfold ExecCall.notify
  split
  · rename_i notified hpc
    rw [hpc] at h
    cases h
  · rfl

theorem notify_of_inWait {c : ExecCall} (h : c.pc.inWait = true) :
    c.notify = { c with pc := .waiting true } := by
  unfold ExecCall.notify
  split
  · rfl
  · rename_i hpc
    exfalso
    cases hc : c.pc with
    | waiting notified => exact hpc notified hc
    | _ =>
      rw [hc] at h
      cases h

/-- The call itself goes on to its return. -/
theorem go_of_out {m m' : SafeMap String Unit ℕ} {k k' : Connection} {c c' : ExecCall}
    (hout : c.pc.out = true) (herror : c.error.succeed ≠ none)
    (h : go env m k i c = some (m', k', c')) :
    c'.pc.out = true ∧ c'.r = c.r ∧ c'.error = c.error ∧ c'.requestId = c.requestId := by
  cases hpc : c.pc with
  | left =>
    simp only [go, hpc, cleanUp] at h
    cases h
    exact ⟨rfl, rfl, rfl, rfl⟩
  | cleaned =>
    simp only [go, hpc, releaseConnection] at h
    cases h
    exact ⟨rfl, rfl, if_neg herror, rfl⟩
  | returned =>
    simp only [go, hpc] at h
    cases h
  | _ =>
    rw [hpc] at hout
    cases hout

/-- What a step does to a call: it goes on itself, its wait times out, an answer arrives for a
pending request, or something happens that leaves its records alone and does no more than notify
it. -/
inductive CallKind (env : Env) (s : RpcState) (i : ℕ) (c : ExecCall) :
    RpcAction → RpcState → Prop where
  | own {s' : RpcState} {m : SafeMap String Unit ℕ} {c' : ExecCall}
      (hgo : go env s.connectionMapById s.connection i c = some (m, s'.connection, c'))
      (hc' : s'.calls[i]? = some c') : CallKind env s i c (.go i) s'
  | timeOut {s' : RpcState} {notified : Bool} (hpc : c.pc = .waiting notified)
      (hc' : s'.calls[i]? = some { c with pc := .left, error := ExecutionError.timeout.report }) :
      CallKind env s i c (.timeOut i) s'
  | stored {s' : RpcState} {f : AnswerFrame} {answer : Json}
      (hpending : f.requestId.toNat ∈ s.connection.pendingRequests)
      (hparse : env.parse (cStr f.payloadBytes) = some answer)
      (hc' : s'.calls[i]? = some c.notify)
      (hconnection : s'.connection
        = s.connection.store f.requestId.toNat f.executionStatus answer) :
      CallKind env s i c (.receive f) s'
  | malformed {s' : RpcState} {f : AnswerFrame}
      (hpending : f.requestId.toNat ∈ s.connection.pendingRequests)
      (hc' : s'.calls[i]? = some c)
      (hconnection : s'.connection = s.connection.forget f.requestId.toNat) :
      CallKind env s i c (.receive f) s'
  | other {a : RpcAction} {s' : RpcState} {c' : ExecCall} (hc' : s'.calls[i]? = some c')
      (hsame : c' = c ∨ c' = c.notify)
      (hpending : c.requestId ∈ s'.connection.pendingRequests ↔
        c.requestId ∈ s.connection.pendingRequests)
      (hanswers : s'.connection.answers c.requestId = s.connection.answers c.requestId)
      (hstatus : s'.connection.executionStatus c.requestId
        = s.connection.executionStatus c.requestId) :
      CallKind env s i c a s'

theorem call_kind {a : RpcAction} {c : ExecCall} (hnumbered : Numbered s)
    (hc : s.calls[i]? = some c) (hzero : c.requestId ≠ 0) (hs : step env s a = some (s', ())) :
    CallKind env s i c a s' := by
  have hnotified : (s.calls.map ExecCall.notify)[i]? = some c.notify := by
    rw [List.getElem?_map, hc]
    rfl
  cases step_kind hs with
  | call args =>
    refine .other ?_ (.inl rfl) Iff.rfl rfl rfl
    obtain ⟨hlt, -⟩ := List.getElem?_eq_some_iff.mp hc
    show (s.calls ++ [startCall env args])[i]? = some c
    rw [List.getElem?_append_left hlt]
    exact hc
  | @go j d d' m k hd hgo =>
    have hset := getElem?_set_of_some hd d' i
    by_cases hij : j = i
    · subst hij
      obtain rfl : d = c := Option.some.inj (hd.symm.trans hc)
      rw [if_pos rfl] at hset
      exact .own hgo hset
    · -- Another call: it registers or erases its own records, which are not these.
      have hne : c.requestId ≠ d.requestId := fun heq =>
        hij (hnumbered.distinct hc hd hzero heq).symm
      obtain ⟨hpending, hanswers, hstatus⟩ := (go_effect hgo).frame hne
      rw [if_neg hij, hc] at hset
      exact .other hset (.inl rfl) hpending hanswers hstatus
  | @timeOut j d notified hd hpc =>
    have hset := getElem?_set_of_some hd
      { d with pc := .left, error := ExecutionError.timeout.report } i
    by_cases hij : j = i
    · subst hij
      obtain rfl : d = c := Option.some.inj (hd.symm.trans hc)
      rw [if_pos rfl] at hset
      exact .timeOut hpc hset
    · rw [if_neg hij, hc] at hset
      exact .other hset (.inl rfl) Iff.rfl rfl rfl
  | stored hpending hparse => exact .stored hpending hparse hnotified rfl
  | malformed hpending hparse => exact .malformed hpending hc rfl
  | quiet hq =>
    have hpending : c.requestId ∈ s'.connection.pendingRequests ↔
        c.requestId ∈ s.connection.pendingRequests := by rw [hq.pendingRequests]
    have hanswers := congrFun hq.answers c.requestId
    have hstatus := congrFun hq.executionStatus c.requestId
    obtain hcalls | hcalls := hq.calls
    · exact .other (by rw [hcalls]; exact hc) (.inl rfl) hpending hanswers hstatus
    · exact .other (by rw [hcalls]; exact hnotified) (.inr rfl) hpending hanswers hstatus

/-- A step keeps an answer for the call that is to take it. -/
theorem Answered.step {a : RpcAction} (hnumbered : Numbered s) (hzero : requestId ≠ 0)
    (hguard : AnswersInWait env s a) (h : Answered s i requestId answer executionStatus)
    (hs : step env s a = some (s', ())) : Answered s' i requestId answer executionStatus := by
  obtain ⟨c, hc, rfl, hcase⟩ := h
  -- While the answer is there to be taken, no other one comes for the call.
  have hnone : ∀ f : AnswerFrame, a = .receive f →
      f.requestId.toNat ∈ s.connection.pendingRequests → c.pc = .waiting true →
      s.connection.answers c.requestId = some answer → c.requestId ≠ f.requestId.toNat := by
    rintro f rfl hpending hpc hanswer heq
    have hnone := (hguard hpending c (List.mem_of_getElem? hc) heq).2 (by rw [hpc]; rfl)
    rw [hanswer] at hnone
    cases hnone
  cases call_kind hnumbered hc hzero hs with
  | own hgo hc' =>
    -- The call takes the answer, or goes on to its return.
    obtain ⟨hpc, hanswer, hstatus⟩ | ⟨hout, hr, herror⟩ := hcase
    · simp only [FastRPC3.go, hpc, wake, hanswer, hstatus, Option.getD_some, Option.some.injEq,
        Prod.mk.injEq] at hgo
      obtain ⟨-, -, rfl⟩ := hgo
      exact ⟨_, hc', rfl, .inr ⟨rfl, rfl, rfl⟩⟩
    · have hsucceed : c.error.succeed ≠ none := by
        rw [herror]
        exact succeed_of_isAnswer ⟨executionStatus, rfl⟩
      obtain ⟨hout', hr', herror', hid'⟩ := go_of_out hout hsucceed hgo
      exact ⟨_, hc', hid', .inr ⟨hout', hr'.trans hr, herror'.trans herror⟩⟩
  | timeOut hpc hc' =>
    have hfalse := hguard c hc
    obtain ⟨htrue, -⟩ | ⟨hout, -⟩ := hcase
    · rw [htrue] at hfalse
      cases hfalse
    · rw [hfalse] at hout
      cases hout
  | stored hpending hparse hc' hconnection =>
    refine ⟨c.notify, hc', c.requestId_notify, ?_⟩
    obtain ⟨hpc, hanswer, hstatus⟩ | ⟨hout, hr⟩ := hcase
    · have hne := hnone _ rfl hpending hpc hanswer
      rw [notify_of_inWait (by rw [hpc]; rfl), hconnection, Connection.answers_store,
        Connection.executionStatus_store, if_neg hne, if_neg hne]
      exact .inl ⟨rfl, hanswer, hstatus⟩
    · rw [notify_of_out hout]
      exact .inr ⟨hout, hr⟩
  | malformed hpending hc' hconnection =>
    refine ⟨c, hc', rfl, ?_⟩
    obtain ⟨hpc, hanswer, hstatus⟩ | hout := hcase
    · have hne := hnone _ rfl hpending hpc hanswer
      rw [hconnection, Connection.answers_forget, Connection.executionStatus_forget, if_neg hne,
        if_neg hne]
      exact .inl ⟨hpc, hanswer, hstatus⟩
    · exact .inr hout
  | other hc' hsame hpending hanswers hstatus =>
    rw [← hanswers, ← hstatus] at hcase
    obtain rfl | rfl := hsame
    · exact ⟨_, hc', rfl, hcase⟩
    · refine ⟨_, hc', c.requestId_notify, ?_⟩
      obtain ⟨hpc, hanswer⟩ | ⟨hout, hr⟩ := hcase
      · rw [notify_of_inWait (by rw [hpc]; rfl)]
        exact .inl ⟨rfl, hanswer⟩
      · rw [notify_of_out hout]
        exact .inr ⟨hout, hr⟩

/-! ## An answer that finds its call waiting -/

/-- The call goes on by itself for some steps. -/
def goes (env : Env) (i : ℕ) : ℕ → RpcState → Option RpcState
  | 0, s => some s
  | n + 1, s => (step env s (.go i)).bind fun r => goes env i n r.1

/-- The call has returned with this answer. -/
def Returned (s : RpcState) (i : ℕ) (answer : Json) (executionStatus : UInt8) : Prop :=
  ∃ c : ExecCall, s.calls[i]? = some c ∧ c.pc = .returned ∧ c.r = answer ∧
    c.error = answerReport executionStatus

/-- Out of the wait with an answer, at most two steps are left. -/
theorem returns_of_out {c : ExecCall} (hc : s.calls[i]? = some c) (hout : c.pc.out = true)
    (hr : c.r = answer) (herror : c.error = answerReport executionStatus) :
    ∃ n ≤ 2, ∃ s', goes env i n s = some s' ∧ Returned s' i answer executionStatus := by
  have hsucceed : c.error.succeed ≠ none := by
    rw [herror]
    exact succeed_of_isAnswer ⟨executionStatus, rfl⟩
  -- The release, from the state in which the records are erased.
  have hrelease : ∀ (s : RpcState) (c : ExecCall), s.calls[i]? = some c → c.pc = .cleaned →
      c.r = answer → c.error = answerReport executionStatus → c.error.succeed ≠ none →
      ∃ s', goes env i 1 s = some s' ∧ Returned s' i answer executionStatus := by
    intro s c hc hpc hr herror hsucceed
    have hstep : step env s (.go i) = some ({ s with
        connectionMapById := (releaseConnection env s.connectionMapById c).1
        calls := s.calls.set i (releaseConnection env s.connectionMapById c).2 }, ()) := by
      simp only [step, hc, go, hpc, Option.map_some]
    refine ⟨_, by rw [goes, hstep]; rfl, (releaseConnection env s.connectionMapById c).2, ?_, rfl,
      hr, ?_⟩
    · show (s.calls.set i _)[i]? = _
      rw [getElem?_set_of_some hc, if_pos rfl]
    · exact (if_neg hsucceed).trans herror
  cases hpc : c.pc with
  | left =>
    have hstep : step env s (.go i) = some ({ s with
        connection := s.connection.forget c.requestId
        calls := s.calls.set i { c with pc := .cleaned } }, ()) := by
      simp only [step, hc, go, hpc, cleanUp, Option.map_some]
    obtain ⟨s', hgoes, hreturned⟩ := hrelease
      { s with
        connection := s.connection.forget c.requestId
        calls := s.calls.set i { c with pc := .cleaned } }
      { c with pc := .cleaned } (by rw [getElem?_set_of_some hc, if_pos rfl]) rfl hr herror hsucceed
    refine ⟨2, Nat.le_refl 2, s', ?_, hreturned⟩
    rw [goes, hstep]
    exact hgoes
  | cleaned =>
    obtain ⟨s', hgoes, hreturned⟩ := hrelease s c hc hpc hr herror hsucceed
    exact ⟨1, by decide, s', hgoes, hreturned⟩
  | returned => exact ⟨0, by decide, s, rfl, c, hc, hpc, hr, herror⟩
  | _ =>
    rw [hpc] at hout
    cases hout

/-- A call that is about to take its answer returns it. -/
theorem Answered.returns (h : Answered s i requestId answer executionStatus) :
    ∃ n ≤ 3, ∃ s', goes env i n s = some s' ∧ Returned s' i answer executionStatus := by
  obtain ⟨c, hc, hid, ⟨hpc, hanswer, hstatus⟩ | ⟨hout, hr, herror⟩⟩ := h
  · subst hid
    have hstep : FastRPC3.step env s (.go i) = some ({ s with
        calls := s.calls.set i
          { c with pc := .left, r := answer, error := answerReport executionStatus } }, ()) := by
      simp only [FastRPC3.step, hc, go, hpc, wake, hanswer, hstatus, Option.map_some,
        Option.getD_some]
    obtain ⟨n, hn, s', hgoes, hreturned⟩ := @returns_of_out env
      { s with
        calls := s.calls.set i
          { c with pc := .left, r := answer, error := answerReport executionStatus } }
      i answer executionStatus
      { c with pc := .left, r := answer, error := answerReport executionStatus }
      (by rw [getElem?_set_of_some hc, if_pos rfl]) rfl rfl rfl
    refine ⟨n + 1, by omega, s', ?_, hreturned⟩
    rw [goes, hstep]
    exact hgoes
  · obtain ⟨n, hn, hreturned⟩ := @returns_of_out env s i answer executionStatus c hc hout hr herror
    exact ⟨n, by omega, hreturned⟩

/-- An answer that arrives for a call in its wait. -/
theorem answered_of_stored {f : AnswerFrame} {c : ExecCall}
    (hguard : AnswersInWait env s (.receive f)) (hc : s.calls[i]? = some c)
    (hid : c.requestId = f.requestId.toNat)
    (hpending : f.requestId.toNat ∈ s.connection.pendingRequests)
    (hwaits : c.pc.beforeItsWait = true ∨ c.pc.inWait = true)
    (hparse : env.parse (cStr f.payloadBytes) = some answer)
    (hs : step env s (.receive f) = some (s', ())) :
    Answered s' i f.requestId.toNat answer f.executionStatus := by
  have hin : c.pc.inWait = true := by
    obtain hbefore | hin := hwaits
    · have hfalse := (hguard hpending c (List.mem_of_getElem? hc) hid).1
        (by rw [hparse]; exact Option.some_ne_none _)
      rw [hbefore] at hfalse
      cases hfalse
    · exact hin
  simp only [step] at hs
  split_ifs at hs
  cases hs
  refine ⟨c.notify, ?_, by rw [c.requestId_notify]; exact hid, .inl ?_⟩
  · simp only [processIncomingAnswer, if_pos hpending, hparse, RpcState.notifyAll,
      List.getElem?_map, hc, Option.map_some]
  · simp only [processIncomingAnswer, if_pos hpending, hparse, RpcState.notifyAll,
      Connection.answers_store, Connection.executionStatus_store, if_true, notify_of_inWait hin,
      and_self]

/-- The ids are distinct in all states of a run. -/
theorem numbered_of_mem_transitions {m : SafeMap String Unit ℕ} {stream : SocketStream.Writer}
    {actions : List RpcAction} {v : Transition RpcState RpcAction Unit}
    (hv : v ∈ transitions (step env) (fresh m stream) actions) : Numbered v.before := by
  obtain ⟨before, after, hsplit⟩ := List.append_of_mem hv
  exact (invariant_past (fun _ s => Numbered s) (fun _ _ _ _ _ h hs => h.step hs) []
    (numbered_fresh m stream) hsplit).1

/-- The transitions of a stretch of a run are steps between such states. -/
theorem stretch_spec {m : SafeMap String Unit ℕ} {stream : SocketStream.Writer}
    {actions : List RpcAction} {pre mid post : List (Transition RpcState RpcAction Unit)}
    {u : Transition RpcState RpcAction Unit}
    (hrun : transitions (step env) (fresh m stream) actions = pre ++ u :: (mid ++ post)) :
    ∀ v ∈ u :: mid, step env v.before v.input = some (v.after, ()) ∧ Numbered v.before :=
  fun v hv => ⟨step_of_mem_transitions (mem_of_stretch hrun v hv),
    numbered_of_mem_transitions (mem_of_stretch hrun v hv)⟩

/-- **No answer is lost.**  In every run in which the answers find their calls waiting, a
well-formed answer that arrives for a pending request of a call that has not left its wait is what
that call returns: it has not returned anything else in any later state, and it needs at most
three steps of its own to return it. -/
theorem answer_not_lost (env : Env) (m : SafeMap String Unit ℕ) (stream : SocketStream.Writer)
    (actions : List RpcAction)
    (hguard : Guarded (step env) (AnswersInWait env) (fresh m stream) actions)
    {pre mid post : List (Transition RpcState RpcAction Unit)}
    {u : Transition RpcState RpcAction Unit}
    (hrun : transitions (step env) (fresh m stream) actions = pre ++ u :: (mid ++ post))
    {f : AnswerFrame} (hinput : u.input = .receive f) {c : ExecCall}
    (hc : u.before.calls[i]? = some c) (hid : c.requestId = f.requestId.toNat)
    (hpending : f.requestId.toNat ∈ u.before.connection.pendingRequests)
    (hwaits : c.pc.beforeItsWait = true ∨ c.pc.inWait = true)
    (hparse : env.parse (cStr f.payloadBytes) = some answer) :
    (∀ d : ExecCall,
      ((u :: mid).getLast (List.cons_ne_nil u mid)).after.calls[i]? = some d → d.pc = .returned →
        d.r = answer ∧ d.error = answerReport f.executionStatus) ∧
    ∃ n ≤ 3, ∃ s', goes env i n ((u :: mid).getLast (List.cons_ne_nil u mid)).after = some s' ∧
      Returned s' i answer f.executionStatus := by
  have hmem := mem_of_stretch hrun
  have hstretch := stretch_spec hrun
  have hu := (hstretch u List.mem_cons_self).1
  rw [hinput] at hu
  have hmid : Answered ((u :: mid).getLast (List.cons_ne_nil u mid)).after i f.requestId.toNat
      answer f.executionStatus := by
    refine stays_unless hrun (fun s => Answered s i f.requestId.toNat answer f.executionStatus)
      ?_ fun v hv h => ?_
    · have hg := hguard u (hmem u List.mem_cons_self)
      rw [hinput] at hg
      exact answered_of_stored hg hc hid hpending hwaits hparse hu
    · have hv' : v ∈ u :: mid := List.mem_cons_of_mem u hv
      -- The id 0 is refused before it gets here.
      exact h.step (hstretch v hv').2 (receive_spec hu).1 (hguard v (hmem v hv')) (hstretch v hv').1
  refine ⟨fun d hd hreturned => ?_, hmid.returns⟩
  obtain ⟨c', hc', -, ⟨hpc, -⟩ | ⟨-, hr, herror⟩⟩ := hmid
  · obtain rfl := Option.some.inj (hd.symm.trans hc')
    rw [hreturned] at hpc
    cases hpc
  · obtain rfl := Option.some.inj (hd.symm.trans hc')
    exact ⟨hr, herror⟩

/-- The answer comes while the call waits. -/
theorem answer_not_lost_one :
    ∃ t, (transitions (step sampleEnv) (fresh sampleMap {}) (sampleAsked ++ sampleAnswered))[11]?
        = some t ∧
      ∃ n ≤ 3, ∃ s', goes sampleEnv 0 n t.after = some s' ∧
        Returned s' 0 (.bool true) execStatusSuccess := by
  have hrun : transitions (step sampleEnv) (fresh sampleMap {}) (sampleAsked ++ sampleAnswered)
      = List.take 8 (transitions (step sampleEnv) (fresh sampleMap {})
          (sampleAsked ++ sampleAnswered)) ++ _ :: ([_, _, _] ++ []) :=
    (List.take_append_drop 8 _).symm
  have h := answer_not_lost sampleEnv sampleMap {} (sampleAsked ++ sampleAnswered)
    (by unfold Guarded; decide) hrun
    (f := ⟨1, execStatusSuccess, [116]⟩) rfl (i := 0) rfl rfl (by decide) (.inr rfl) rfl
  exact ⟨_, rfl, h.2⟩

/-- The same answer, just before the call begins to wait. -/
def earlyAnswer : List RpcAction :=
  sampleAsked.dropLast ++ [.receive ⟨1, execStatusSuccess, [116]⟩, .go 0, .timeOut 0, .go 0, .go 0]

/-- An answer that is stored between the transmission and the wait is lost: the call times out
without a notification. -/
theorem answer_before_wait_lost :
    ∃ pre u mid, transitions (step sampleEnv) (fresh sampleMap {}) earlyAnswer = pre ++ u :: mid ∧
      u.input = .receive ⟨1, execStatusSuccess, [116]⟩ ∧
      (∃ c : ExecCall, u.before.calls[0]? = some c ∧ c.requestId = 1 ∧ c.pc = .beforeWait) ∧
      1 ∈ u.before.connection.pendingRequests ∧
      sampleEnv.parse (cStr [116]) = some (.bool true) ∧
      (∀ v ∈ mid, ∀ i, v.input = .timeOut i →
        ∃ c : ExecCall, v.before.calls[i]? = some c ∧ c.pc = .waiting false) ∧
      ∃ t ∈ mid, ∃ d : ExecCall, t.after.calls[0]? = some d ∧ d.pc = .returned ∧
        d.error = ExecutionError.timeout.report := by
  have hrun : transitions (step sampleEnv) (fresh sampleMap {}) earlyAnswer
      = List.take 7 (transitions (step sampleEnv) (fresh sampleMap {}) earlyAnswer) ++
          _ :: [_, _, _, _] := (List.take_append_drop 7 _).symm
  refine ⟨_, _, _, hrun, rfl, ⟨_, rfl, rfl, rfl⟩, by decide, rfl, ?_, ?_⟩
  · intro v hv i hinput
    simp only [List.mem_cons, List.not_mem_nil, or_false] at hv
    obtain rfl | rfl | rfl | rfl := hv
    · cases hinput
    · cases hinput
      exact ⟨_, rfl, rfl⟩
    · cases hinput
    · cases hinput
  · exact ⟨_, List.mem_cons_of_mem _ (List.mem_cons_of_mem _ (List.mem_cons_of_mem _
      List.mem_cons_self)), _, rfl, rfl, rfl⟩

end FastRPC3

end Mantids
