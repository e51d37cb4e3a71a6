/-
# The steps of a FastRPC3 peer

What a step of one end of a connection can do, once for all invariants.

* `GoWire`, `Kept` — what a step of a call does to its arguments, its place and the stream;
* `Caller` — the ids of the calls, and who has the socket mutex;
* `Stuck` — a call that has returned with the socket mutex;
* `PeerKind`, `peerStep_kind` — the kinds of steps of a peer, each with the state it leads to.
-/
import Mantids.FastRpcSystem

namespace Mantids

namespace FastRPC3

open Run SocketStream SocketStream.Writer

variable {env : Env} {s s' : RpcState}

/-! ## The calls of a peer -/

namespace Pc

/-- The call has written its query, as far as it will. -/
def transmitted : Pc → Bool
  | sent | beforeWait | waiting _ | left | cleaned | returned => true
  | _ => false

/-- The call has its request id and has not written. -/
def hasId : Pc → Bool
  | numbered | registered | sending => true
  | _ => false

end Pc

@[simp] theorem transmitted_notify (c : ExecCall) : c.notify.pc.transmitted = c.pc.transmitted :=
  notify_pc (fun _ => rfl) c

@[simp] theorem hasId_notify (c : ExecCall) : c.notify.pc.hasId = c.pc.hasId :=
  notify_pc (fun _ => rfl) c

@[simp] theorem ExecCall.args_notify (c : ExecCall) : c.notify.args = c.args := by
  unfold ExecCall.notify
  split
  · rfl
  · rfl

/-- What a step of a call does to its arguments, its place and the stream. -/
structure GoWire (k k' : Connection) (c c' : ExecCall) : Prop where
  args : c'.args = c.args
  transmitted : c.pc.transmitted = true → c'.pc.transmitted = true
  hasId : c'.pc.hasId = true → c.pc.hasId = true ∨ c.pc = .opened
  stream : c.pc ≠ .sending → k'.stream = k.stream
  counter : k.requestIdCounter < 2 ^ 64 → k'.requestIdCounter < 2 ^ 64

theorem go_wire {m m' : SafeMap String Unit ℕ} {k k' : Connection} {i : ℕ} {c c' : ExecCall}
    (h : go env m k i c = some (m', k', c')) : GoWire k k' c c' := by
  cases goes_of_go h with
  | numbers hpc hlt =>
    constructor <;> simp [Pc.transmitted, Pc.hasId, hpc]
    exact fun _ => hlt
  | registers hpc => constructor <;> simp [register, Pc.transmitted, Pc.hasId, hpc]
  | unlocks hpc => constructor <;> simp [unlockSocket, Pc.transmitted, Pc.hasId, hpc]
  | wakes hpc =>
    unfold wake
    split
    · constructor <;> simp [Pc.transmitted, Pc.hasId, hpc]
    · split_ifs <;> constructor <;> simp [Pc.transmitted, Pc.hasId, hpc]
  | erases hpc => constructor <;> simp [Connection.forget, Pc.transmitted, Pc.hasId, hpc]
  | releases hpc => constructor <;> simp [releaseConnection, Pc.transmitted, Pc.hasId, hpc]
  | _ hpc => constructor <;> simp [Pc.transmitted, Pc.hasId, hpc]

/-- What is kept of a call. -/
structure Kept (c c' : ExecCall) : Prop where
  args : c'.args = c.args
  transmitted : c.pc.transmitted = true → c'.pc.transmitted = true ∧ c'.requestId = c.requestId

theorem Kept.refl (c : ExecCall) : Kept c c := ⟨rfl, fun h => ⟨h, rfl⟩⟩

theorem kept_notify (c : ExecCall) : Kept c c.notify :=
  ⟨c.args_notify, fun h => ⟨by rw [transmitted_notify]; exact h, c.requestId_notify⟩⟩

theorem kept_go {m m' : SafeMap String Unit ℕ} {k k' : Connection} {i : ℕ} {c c' : ExecCall}
    (h : go env m k i c = some (m', k', c')) : Kept c c' := by
  have hwire := go_wire h
  refine ⟨hwire.args, fun htransmitted => ⟨hwire.transmitted htransmitted, ?_⟩⟩
  refine ((go_effect h).requestId ?_).1
  intro hopened
  rw [hopened] at htransmitted
  cases htransmitted

/-- No call is lost or changes what it has sent. -/
theorem kept_step {a : RpcAction} (hs : step env s a = some (s', ())) {i : ℕ} {c : ExecCall}
    (hc : s.calls[i]? = some c) : ∃ c', s'.calls[i]? = some c' ∧ Kept c c' := by
  have hnotified : (s.calls.map ExecCall.notify)[i]? = some c.notify := by
    rw [List.getElem?_map, hc]
    rfl
  cases step_kind hs with
  | call args =>
    obtain ⟨hlt, -⟩ := List.getElem?_eq_some_iff.mp hc
    refine ⟨c, ?_, .refl c⟩
    show (s.calls ++ [startCall env args])[i]? = some c
    rw [List.getElem?_append_left hlt]
    exact hc
  | @go j d d' m k hd hgo =>
    by_cases hij : j = i
    · obtain rfl := hij
      obtain rfl : d = c := Option.some.inj (hd.symm.trans hc)
      exact ⟨d', (getElem?_set_of_some hc d' j).trans (if_pos rfl), kept_go hgo⟩
    · exact ⟨c, (getElem?_set_of_some hd d' i).trans ((if_neg hij).trans hc), .refl c⟩
  | @timeOut j d notified hd hpc =>
    by_cases hij : j = i
    · obtain rfl := hij
      obtain rfl : d = c := Option.some.inj (hd.symm.trans hc)
      exact ⟨_, (getElem?_set_of_some hc _ j).trans (if_pos rfl), rfl, fun _ => ⟨rfl, rfl⟩⟩
    · exact ⟨c, (getElem?_set_of_some hd _ i).trans ((if_neg hij).trans hc), .refl c⟩
  | stored hpending hparse => exact ⟨_, hnotified, kept_notify c⟩
  | malformed hpending hparse => exact ⟨c, hc, .refl c⟩
  | quiet hq =>
    obtain hcalls | hcalls := hq.calls
    · exact ⟨c, by rw [hcalls]; exact hc, .refl c⟩
    · exact ⟨_, by rw [hcalls]; exact hnotified, kept_notify c⟩

/-- A step changes the stream only when a call writes its query. -/
theorem stream_step {a : RpcAction} (hs : step env s a = some (s', ())) :
    s'.connection.stream = s.connection.stream ∨
      ∃ (i : ℕ) (c : ExecCall), s.calls[i]? = some c ∧ c.pc = .sending ∧
        s' = { s with
          connection := (transmit env s.connection c).1
          calls := s.calls.set i (transmit env s.connection c).2 } := by
  cases a with
  | call args =>
    simp only [step] at hs
    cases hs
    exact .inl rfl
  | go i =>
    simp only [step] at hs
    split at hs
    · rename_i c hc
      obtain ⟨⟨m, k, c'⟩, hgo, hs⟩ := Option.map_eq_some_iff.mp hs
      cases hs
      by_cases hpc : c.pc = .sending
      · simp only [go, hpc] at hgo
        cases hgo
        exact .inr ⟨i, c, hc, hpc, rfl⟩
      · exact .inl ((go_wire hgo).stream hpc)
    · cases hs
  | timeOut i =>
    simp only [step] at hs
    split at hs
    · obtain ⟨c', -, hs⟩ := Option.map_eq_some_iff.mp hs
      cases hs
      exact .inl rfl
    · cases hs
  | receive f =>
    simp only [step] at hs
    split_ifs at hs
    cases hs
    left
    unfold processIncomingAnswer
    split_ifs
    · split
      · rfl
      · rfl
    · rfl
  | lockSocket | unlockSocket | terminate | notifyTerminated =>
    simp only [step] at hs
    split_ifs at hs
    cases hs
    exact .inl rfl
  | destroy =>
    simp only [step] at hs
    split_ifs at hs
    split at hs
    · cases hs
      exact .inl rfl
    · cases hs
      exact .inl rfl
  | finishDestroy =>
    simp only [step] at hs
    split_ifs at hs
    obtain ⟨m, -, hs⟩ := Option.map_eq_some_iff.mp hs
    cases hs
    exact .inl rfl

/-- The ids of the calls of a peer, and who has its socket mutex. -/
structure Caller (s : RpcState) : Prop where
  numbered : Numbered s
  counter : s.connection.requestIdCounter < 2 ^ 64
  hasId : ∀ {i : ℕ} {c : ExecCall}, s.calls[i]? = some c → c.pc.hasId = true → c.requestId ≠ 0
  held : Held s

theorem startCall_hasId (env : Env) (args : CallArgs) : (startCall env args).pc.hasId = false := by
  unfold startCall
  split_ifs <;> rfl

theorem Caller.step {a : RpcAction} (h : Caller s) (hs : step env s a = some (s', ())) :
    Caller s' := by
  refine ⟨h.numbered.step hs, ?_, ?_, h.held.step hs⟩
  · cases step_kind hs with
    | go hc hgo => exact (go_wire hgo).counter h.counter
    | quiet hq => exact hq.requestIdCounter ▸ h.counter
    | call args => exact h.counter
    | timeOut notified hc hpc => exact h.counter
    | stored hpending hparse => exact h.counter
    | malformed hpending hparse => exact h.counter
  · intro i c' hc' hid
    cases step_kind hs with
    | call args =>
      obtain hold | rfl := getElem?_start hc'
      · exact h.hasId hold hid
      · rw [startCall_hasId] at hid
        cases hid
    | @go j d d' m k hd hgo =>
      change (s.calls.set j d')[i]? = some c' at hc'
      rw [getElem?_set_of_some hd] at hc'
      split_ifs at hc' with hij
      · cases hc'
        have he := go_effect hgo
        obtain hold | hopened := (go_wire hgo).hasId hid
        · rw [(he.requestId (by intro hpc; rw [hpc] at hold; cases hold)).1]
          exact h.hasId hd hold
        · rw [(he.opened hopened).1]
          exact Nat.one_le_iff_ne_zero.mp h.numbered.counter
      · exact h.hasId hc' hid
    | @timeOut j d notified hd hpc =>
      change (s.calls.set j _)[i]? = some c' at hc'
      rw [getElem?_set_of_some hd] at hc'
      split_ifs at hc' with hij
      · cases hc'
        cases hid
      · exact h.hasId hc' hid
    | stored hpending hparse =>
      obtain ⟨c, hc, rfl⟩ := getElem?_map_notify hc'
      rw [hasId_notify] at hid
      rw [c.requestId_notify]
      exact h.hasId hc hid
    | malformed hpending hparse => exact h.hasId hc' hid
    | quiet hq =>
      obtain hcalls | hcalls := hq.calls
      · rw [hcalls] at hc'
        exact h.hasId hc' hid
      · rw [hcalls] at hc'
        obtain ⟨c, hc, rfl⟩ := getElem?_map_notify hc'
        rw [hasId_notify] at hid
        rw [c.requestId_notify]
        exact h.hasId hc hid

/-- While another thread has the socket mutex, no call takes it away. -/
theorem socketMutex_other_step {a : RpcAction} (hheld : Held s)
    (hs : step env s a = some (s', ())) (ha : a ≠ .unlockSocket)
    (hother : s.connection.socketMutex = some .other) :
    s'.connection.socketMutex = some .other := by
  cases a with
  | go i =>
    simp only [FastRPC3.step] at hs
    split at hs
    · rename_i c hc
      obtain ⟨⟨m, k, c'⟩, hgo, hs⟩ := Option.map_eq_some_iff.mp hs
      cases hs
      obtain ⟨hsame, -, -⟩ | ⟨hfree, -, -⟩ | ⟨hholds, -, -⟩ := go_socketMutex hgo
      · exact hsame.trans hother
      · rw [hother] at hfree
        cases hfree
      · have hcall := hheld i c hc hholds
        rw [hother] at hcall
        cases hcall
    · cases hs
  | unlockSocket => exact absurd rfl ha
  | lockSocket =>
    simp only [FastRPC3.step, hother] at hs
    cases hs
  | call args =>
    simp only [FastRPC3.step] at hs
    cases hs
    exact hother
  | timeOut i =>
    simp only [FastRPC3.step] at hs
    split at hs
    · obtain ⟨c', -, hs⟩ := Option.map_eq_some_iff.mp hs
      cases hs
      exact hother
    · cases hs
  | receive f =>
    simp only [FastRPC3.step] at hs
    split_ifs at hs
    cases hs
    unfold processIncomingAnswer
    split_ifs
    · split
      · exact hother
      · exact hother
    · exact hother
  | terminate | notifyTerminated =>
    simp only [FastRPC3.step] at hs
    split_ifs at hs
    cases hs
    exact hother
  | destroy =>
    simp only [FastRPC3.step] at hs
    split_ifs at hs
    split at hs
    · cases hs
      exact hother
    · cases hs
      exact hother
  | finishDestroy =>
    simp only [FastRPC3.step] at hs
    split_ifs at hs
    obtain ⟨m, -, hs⟩ := Option.map_eq_some_iff.mp hs
    cases hs
    exact hother

/-- A call that has returned with the socket mutex, because its transmission failed, keeps it. -/
def Stuck (s : RpcState) : Prop :=
  ∃ (i : ℕ) (c : ExecCall), s.connection.socketMutex = some (.call i) ∧ s.calls[i]? = some c ∧
    c.pc = .returned

theorem Stuck.step {a : RpcAction} (hheld : Held s) (h : Stuck s)
    (hs : step env s a = some (s', ())) : Stuck s' := by
  obtain ⟨i, c, hmutex, hc, hpc⟩ := h
  have hnotify : c.notify = c := by
    unfold ExecCall.notify
    rw [hpc]
  have hnotified : (s.calls.map ExecCall.notify)[i]? = some c := by
    rw [List.getElem?_map, hc]
    exact congrArg some hnotify
  cases step_kind hs with
  | call args =>
    obtain ⟨hlt, -⟩ := List.getElem?_eq_some_iff.mp hc
    refine ⟨i, c, hmutex, ?_, hpc⟩
    show (s.calls ++ [startCall env args])[i]? = some c
    rw [List.getElem?_append_left hlt]
    exact hc
  | @go j d d' m k hd hgo =>
    have hij : j ≠ i := by
      rintro rfl
      obtain rfl : d = c := Option.some.inj (hd.symm.trans hc)
      simp only [go, hpc] at hgo
      cases hgo
    refine ⟨i, c, ?_, (getElem?_set_of_some hd d' i).trans ((if_neg hij).trans hc), hpc⟩
    obtain ⟨hsame, -, -⟩ | ⟨hfree, -, -⟩ | ⟨hholds, -, -⟩ := go_socketMutex hgo
    · exact hsame.trans hmutex
    · rw [hmutex] at hfree
      cases hfree
    · -- The mutex of another call is not unlocked.
      have hcall := hheld j d hd hholds
      rw [hmutex] at hcall
      cases hcall
      exact absurd rfl hij
  | @timeOut j d notified hd hwaits =>
    have hij : j ≠ i := by
      rintro rfl
      obtain rfl : d = c := Option.some.inj (hd.symm.trans hc)
      rw [hpc] at hwaits
      cases hwaits
    exact ⟨i, c, hmutex, (getElem?_set_of_some hd _ i).trans ((if_neg hij).trans hc), hpc⟩
  | stored hpending hparse => exact ⟨i, c, hmutex, hnotified, hpc⟩
  | malformed hpending hparse => exact ⟨i, c, hmutex, hc, hpc⟩
  | quiet hq =>
    refine ⟨i, c, (hq.socketMutex i).mpr hmutex, ?_, hpc⟩
    obtain hcalls | hcalls := hq.calls
    · rw [hcalls]
      exact hc
    · rw [hcalls]
      exact hnotified

/-! ## The steps of a peer -/

/-- The value that keeps `handleConnection` in its loop is not one of its failures. -/
theorem code_eq_continue {ret : HandlerReturn} :
    ret.code = HandlerReturn.continue.code ↔ ret = .continue := by
  cases ret <;> decide

theorem readExtraAuthToken_error {flags : UInt8} {maxAlloc : ℕ} {t rest : List UInt8}
    {ret : HandlerReturn} (h : readExtraAuthToken flags maxAlloc t = (.error ret, rest)) :
    ret ≠ .continue := by
  unfold readExtraAuthToken at h
  split_ifs at h
  · split at h
    · cases h
      decide
    · cases h
    · cases h
  · cases h

theorem readExecutionRequest_error {config : Config} {t rest : List UInt8} {ret : HandlerReturn}
    (h : readExecutionRequest config t = (.error ret, rest)) : ret ≠ .continue := by
  simp only [readExecutionRequest] at h
  split_ifs at h
  · cases h
    decide
  · cases h
    decide
  · split at h
    · cases h
      decide
    · cases h
    · split at h
      · cases h
        decide
      · cases h
      · split at h
        · rename_i htoken
          cases h
          exact readExtraAuthToken_error htoken
        · cases h
        · cases h

theorem readAnswer_error {config : Config} {t rest : List UInt8} {ret : ℤ}
    (h : readAnswer config t = (.error ret, rest)) : ret ≠ HandlerReturn.continue.code := by
  simp only [readAnswer] at h
  split_ifs at h
  · cases h
    decide
  · split at h
    · cases h
      decide
    · cases h
    · cases h

/-- What is read ends the loop or goes out of bounds, unless it is an answer or a query. -/
theorem readMessage_cases (config : Config) (t : List UInt8) :
    (∃ f rest, readMessage config t = (.answer (.ok f), rest)) ∨
    (∃ q rest, readMessage config t = (.query (.ok q), rest)) ∨
    (∃ ret rest, readMessage config t = (.answer (.error ret), rest) ∧
      ret ≠ HandlerReturn.continue.code) ∨
    (∃ ret rest, (readMessage config t = (.query (.error ret), rest) ∨
      readMessage config t = (.ended ret, rest)) ∧ ret.code ≠ HandlerReturn.continue.code) ∨
    (∃ rest, readMessage config t = (.answer .outOfBounds, rest) ∨
      readMessage config t = (.query .outOfBounds, rest)) := by
  simp only [readMessage]
  split_ifs
  · obtain ⟨r, rest, hread⟩ : ∃ r rest, readAnswer config (readU 1 t).2.2 = (r, rest) :=
      ⟨_, _, rfl⟩
    rw [hread]
    cases r with
    | ok f => exact .inl ⟨f, rest, rfl⟩
    | error ret => exact .inr (.inr (.inl ⟨ret, rest, rfl, readAnswer_error hread⟩))
    | outOfBounds => exact .inr (.inr (.inr (.inr ⟨rest, .inl rfl⟩)))
  · obtain ⟨r, rest, hread⟩ : ∃ r rest, readExecutionRequest config (readU 1 t).2.2 = (r, rest) :=
      ⟨_, _, rfl⟩
    rw [hread]
    cases r with
    | ok q => exact .inr (.inl ⟨q, rest, rfl⟩)
    | error ret =>
      exact .inr (.inr (.inr (.inl ⟨ret, rest, .inl rfl,
        mt code_eq_continue.mp (readExecutionRequest_error hread)⟩)))
    | outOfBounds => exact .inr (.inr (.inr (.inr ⟨rest, .inr rfl⟩)))
  · exact .inr (.inr (.inr (.inl ⟨_, _, .inr rfl, by decide⟩)))
  · exact .inr (.inr (.inr (.inl ⟨_, _, .inr rfl, by decide⟩)))
  · exact .inr (.inr (.inr (.inl ⟨_, _, .inr rfl, by decide⟩)))

/-- An answer with the id 0 is not taken. -/
theorem requestId_ne_zero_of_readAnswer {config : Config} {t rest : List UInt8} {f : AnswerFrame}
    (h : readAnswer config t = (.ok f, rest)) : f.requestId ≠ 0 := by
  have hfits : (readU 8 t).1 < 2 ^ 64 := readU_lt 8 t
  simp only [readAnswer] at h
  split_ifs at h with hzero
  · cases h
  · split at h
    · cases h
    · cases h
    · cases h
      intro hid
      apply hzero
      rw [← UInt64.toNat_ofNat_of_lt' hfits]
      exact congrArg UInt64.toNat hid

theorem requestId_ne_zero_of_readIncoming {config : Config} {t rest : List UInt8} {f : AnswerFrame}
    (h : readIncoming config t = some (.answer f, rest)) : f.requestId ≠ 0 := by
  obtain ⟨f', rest', hread⟩ | ⟨q, rest', hread⟩ | ⟨ret, rest', hread, -⟩ | ⟨ret, rest', hread, -⟩ |
    ⟨rest', hread⟩ := readMessage_cases config t
  · rw [readIncoming, hread] at h
    cases h
    simp only [readMessage] at hread
    split_ifs at hread
    · obtain ⟨r, t', hanswer⟩ : ∃ r t', readAnswer config (readU 1 t).2.2 = (r, t') := ⟨_, _, rfl⟩
      rw [hanswer] at hread
      cases hread
      exact requestId_ne_zero_of_readAnswer hanswer
    all_goals cases hread
  · rw [readIncoming, hread] at h
    cases h
  · rw [readIncoming, hread] at h
    cases h
  · obtain hread | hread := hread
    · rw [readIncoming, hread] at h
      cases h
    · rw [readIncoming, hread] at h
      cases h
  · obtain hread | hread := hread
    · rw [readIncoming, hread] at h
      cases h
    · rw [readIncoming, hread] at h
      cases h

variable {penv : PeerEnv} {incoming : List UInt8} {p p' : Peer}

/-- The kinds of steps of a peer, each with the state it leads to. -/
inductive PeerKind (penv : PeerEnv) (incoming : List UInt8) (p : Peer) :
    PeerAction → Peer → Prop where
  | rpc {a : RpcAction} {rpc : RpcState} (hown : p.isOwn a = true)
      (hs : step penv.toEnv p.rpc a = some (rpc, ())) :
      PeerKind penv incoming p (.rpc a) { p with rpc }
  | answer {arrived : ℕ} {pushed : Bool} {f : AnswerFrame} {rest : List UInt8}
      (hret : p.ret = HandlerReturn.continue.code) (hrunning : p.rpc.handler = .running)
      (hread : readIncoming penv.config ((incoming.drop p.read).take arrived)
        = some (.answer f, rest)) :
      PeerKind penv incoming p (.receive arrived pushed)
        { p with
          read := p.read + (((incoming.drop p.read).take arrived).length - rest.length)
          rpc := processIncomingAnswer penv.toEnv p.rpc f }
  | query {arrived : ℕ} {pushed : Bool} {q : ExecutionRequest} {payload : Json} {rest : List UInt8}
      (hret : p.ret = HandlerReturn.continue.code)
      (hread : readIncoming penv.config ((incoming.drop p.read).take arrived)
        = some (.query q, rest))
      (hparse : penv.parse (cStr q.payloadBytes) = some payload) :
      PeerKind penv incoming p (.receive arrived pushed)
        { p with
          read := p.read + (((incoming.drop p.read).take arrived).length - rest.length)
          tasks := p.tasks ++ [taskOf q payload pushed] }
  | failed {arrived : ℕ} {pushed : Bool} {ret : ℤ} (read : ℕ)
      (hret : ret ≠ HandlerReturn.continue.code) :
      PeerKind penv incoming p (.receive arrived pushed) { p with read, ret }
  | started {j : ℕ} {t : Task} (ht : p.tasks[j]? = some t) (hstage : t.stage = .queued) :
      PeerKind penv incoming p (.start j)
        { p with tasks := p.tasks.set j { t with stage := .started p.session } }
  | executed {j : ℕ} {now : ℤ} {t : Task} {session : Option Session} {ran : Ran}
      (ht : p.tasks[j]? = some t) (hstage : t.stage = .started session)
      (hran : runTask penv session p.session now t = some ran) :
      PeerKind penv incoming p (.execute j now)
        { p with
          session := ran.session
          tasks := p.tasks.set j
            { t with
              stage := .answering (penv.toStyledString ran.response) ran.executionStatus
              events := ran.events } }
  | ended {a : PeerAction} : PeerKind penv incoming p a { p with ended := true }
  | locked {a : PeerAction} (sender : Sender) (hfree : p.rpc.connection.socketMutex = none) :
      PeerKind penv incoming p a
        { p with
          rpc.connection.socketMutex := some .other
          sender := some sender }
  | sent {j : ℕ} {t : Task} {answer : List UInt8} {executionStatus : UInt8}
      (hsender : p.sender = some (.task j)) (ht : p.tasks[j]? = some t)
      (hstage : t.stage = .answering answer executionStatus) :
      PeerKind penv incoming p (.send j)
        { p.unlock (sendRPCAnswer penv.config t.params.requestId answer executionStatus
            p.rpc.connection.stream).2 with
          tasks := p.tasks.set j { t with stage := .done answer executionStatus } }
  | closed (hsender : p.sender = some .closer) :
      PeerKind penv incoming p .sendClose (p.unlock (p.rpc.connection.stream.writeU 1 0).2)

theorem receive_kind {arrived : ℕ} {pushed : Bool}
    (h : p.receive penv incoming arrived pushed = some p') :
    PeerKind penv incoming p (.receive arrived pushed) p' := by
  simp only [Peer.receive] at h
  split_ifs at h with hguard
  obtain ⟨hret, hrunning, -⟩ := hguard
  obtain ⟨f, rest, hread⟩ | ⟨q, rest, hread⟩ | ⟨ret, rest, hread, hne⟩ | ⟨ret, rest, hread, hne⟩ |
    ⟨rest, hread⟩ := readMessage_cases penv.config ((incoming.drop p.read).take arrived)
  · rw [hread] at h
    cases h
    exact .answer hret hrunning (by rw [readIncoming, hread])
  · rw [hread] at h
    simp only [Peer.takeQuery] at h
    cases hparse : penv.parse (cStr q.payloadBytes) with
    | none =>
      rw [hparse] at h
      cases h
      exact .failed _ (by decide)
    | some payload =>
      rw [hparse] at h
      cases h
      exact .query hret (by rw [readIncoming, hread]) hparse
  · rw [hread] at h
    cases h
    exact .failed _ hne
  · obtain hread | hread := hread
    · rw [hread] at h
      cases h
      exact .failed _ hne
    · rw [hread] at h
      cases h
      exact .failed _ hne
  · obtain hread | hread := hread
    · rw [hread] at h
      cases h
      exact .ended
    · rw [hread] at h
      cases h
      exact .ended

theorem lock_kind {sender : Sender} {a : PeerAction} (h : p.lock sender = some p') :
    PeerKind penv incoming p a p' := by
  simp only [Peer.lock] at h
  split_ifs at h with hfree
  cases h
  exact .locked sender hfree

theorem peerStep_kind {a : PeerAction} (h : peerStep penv incoming p a = some p') :
    PeerKind penv incoming p a p' := by
  unfold peerStep at h
  split_ifs at h
  cases a with
  | rpc a =>
    dsimp only at h
    split_ifs at h with hown
    obtain ⟨⟨rpc, output⟩, hs, hp⟩ := Option.map_eq_some_iff.mp h
    cases hp
    exact .rpc hown hs
  | receive arrived pushed => exact receive_kind h
  | start j =>
    simp only [Peer.start] at h
    split at h
    · rename_i t ht
      split at h
      · rename_i hstage
        cases h
        exact .started ht hstage
      · cases h
    · cases h
  | execute j now =>
    simp only [Peer.execute] at h
    split at h
    · rename_i t ht
      split at h
      · rename_i session hstage
        split at h
        · rename_i ran hran
          cases h
          exact .executed ht hstage hran
        · cases h
          exact .ended
      · cases h
    · cases h
  | lock j =>
    dsimp only at h
    split_ifs at h
    exact lock_kind h
  | send j =>
    simp only [Peer.send] at h
    split_ifs at h with hsender
    split at h
    · rename_i t ht
      split at h
      · rename_i answer executionStatus hstage
        cases h
        exact .sent hsender ht hstage
      · cases h
    · cases h
  | lockClose => exact lock_kind h
  | sendClose =>
    simp only [Peer.sendClose] at h
    split_ifs at h with hsender
    cases h
    exact .closed hsender

end FastRPC3

end Mantids
