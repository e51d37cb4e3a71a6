/-
# Calls and their executions

A query may be cut off, refused or executed and not answered, and two peers write both queries and
answers on their streams.  Still a call that reports an answer was executed for it: the other end
has exactly one task with its request id, the task has its name, payload and token, and the value
and the status that the call reports are what the task answered.

* `Written` — what is on the stream of a peer: whole frames, and a cut one after which nothing is
  written;
* `Took` — the tasks of a peer are the queries that were read, in order;
* `Heard` — every answer that was read is one that a task of the other end has given;
* `Connected`, `Connected.executed` — what holds of both ends, and what it says of a call that
  reports an answer.
-/
import Mantids.FastRpcPeer

namespace Mantids

namespace FastRPC3

open Run SocketStream SocketStream.Writer Framing

variable {env : Env} {s s' : RpcState} {penv : PeerEnv} {incoming : List UInt8} {p p' : Peer}

/-! ## What holds of a peer -/

namespace Frame

/-- The request id of a query. -/
def queryId : Frame → Option UInt64
  | query requestId _ => some requestId
  | _ => none

/-- The parameters of the task of a query that is read. -/
def params (parse : List UInt8 → Option Json) : Frame → Option TaskParameters
  | query requestId args =>
    (parse (cStr args.output)).map fun payload =>
      { requestId := requestId
        methodName := latin1 args.methodName
        payload := payload
        extraTokenAuth :=
          if args.extraJWTTokenAuth ≠ [] then some (wireToken args.extraJWTTokenAuth) else none }
  | _ => none

end Frame

/-- The bytes of frames, one behind the other. -/
def streamBytes (frames : List Frame) : List UInt8 := (frames.map Frame.bytes).flatten

/-- The bytes are cut off from the front of a frame. -/
def CutFrame (tail : List UInt8) : Prop :=
  tail = [] ∨ ∃ frame : Frame, frame.Fits ∧ tail <+: frame.bytes ∧ tail ≠ frame.bytes

/-- Nothing will be written any more. -/
def Stalled (s : RpcState) : Prop := Shut s.connection.stream ∨ Stuck s

/-- A task has given this answer. -/
def Peer.Answered (p : Peer) (requestId : UInt64) (answer : List UInt8) (executionStatus : UInt8) :
    Prop :=
  ∃ t ∈ p.tasks, t.params.requestId = requestId ∧ t.stage = .done answer executionStatus

/-- What is on the stream of a peer. -/
structure Written (config : Config) (p : Peer) (frames : List Frame) : Prop where
  stream : ∃ tail, p.rpc.connection.stream.sent = streamBytes frames ++ tail ∧ CutFrame tail ∧
    (tail ≠ [] → Stalled p.rpc)
  fits : ∀ frame ∈ frames, frame.Fits
  /-- A query is that of a call. -/
  queries : ∀ {requestId : UInt64} {args : CallArgs}, .query requestId args ∈ frames →
    ∃ (i : ℕ) (c : ExecCall), p.rpc.calls[i]? = some c ∧ c.requestId = requestId.toNat ∧
      c.args = args ∧ c.pc.transmitted = true
  /-- No call has two. -/
  nodup : (frames.filterMap Frame.queryId).Nodup
  /-- An answer is that of a task. -/
  answers : ∀ {requestId : UInt64} {executionStatus : UInt8} {text : List UInt8},
    .answer requestId executionStatus text ∈ frames →
    ∃ answer, p.Answered requestId answer executionStatus ∧ text = sentText config answer

/-- What a peer has taken from the frames of the other end. -/
def Took (parse : List UInt8 → Option Json) (p : Peer) (frames : List Frame) : Prop :=
  ∃ n ≤ frames.length,
    p.tasks.map (·.params) = (frames.take n).filterMap (Frame.params parse) ∧
    (p.ret = HandlerReturn.continue.code → p.read = (streamBytes (frames.take n)).length)

/-- The answers that a peer has received are those of tasks of the other end. -/
def Heard (penv : PeerEnv) (config : Config) (p q : Peer) : Prop :=
  ∃ past, Sourced penv.toEnv past p.rpc ∧ ∀ t ∈ past, ∀ f : AnswerFrame, t.input = .receive f →
    ∃ answer, q.Answered f.requestId answer f.executionStatus ∧
      f.payloadBytes = sentText config answer

/-- What holds of a peer by itself. -/
structure Alone (p : Peer) : Prop where
  caller : Caller p.rpc
  shutsDown : ShutsDown p.rpc.connection.stream.fails
  sender : p.sender ≠ none → p.rpc.connection.socketMutex = some .other

/-! ## Answers that were given -/

/-- No step takes back an answer. -/
theorem Peer.Answered.step {a : PeerAction} (h : PeerKind penv incoming p a p')
    {requestId : UInt64} {answer : List UInt8} {executionStatus : UInt8}
    (hp : p.Answered requestId answer executionStatus) :
    p'.Answered requestId answer executionStatus := by
  obtain ⟨t, ht, hid, hdone⟩ := hp
  -- A step of a task that has not answered leaves the ones that have.
  have hset : ∀ {j : ℕ} {u : Task} (u' : Task), p.tasks[j]? = some u →
      u.stage ≠ .done answer executionStatus → t ∈ p.tasks.set j u' := by
    intro j u u' hu hne
    obtain ⟨k, hk⟩ := List.getElem?_of_mem ht
    have hkj : k ≠ j := by
      rintro rfl
      obtain rfl : u = t := Option.some.inj (hu.symm.trans hk)
      exact hne hdone
    have hget : (p.tasks.set j u')[k]? = some t := by
      rw [getElem?_set_of_some hu, if_neg (Ne.symm hkj)]
      exact hk
    exact List.mem_of_getElem? hget
  cases h with
  | query hret hread hparse => exact ⟨t, List.mem_append_left _ ht, hid, hdone⟩
  | started hu hstage => exact ⟨t, hset _ hu (by rw [hstage]; exact nofun), hid, hdone⟩
  | executed hu hstage hran => exact ⟨t, hset _ hu (by rw [hstage]; exact nofun), hid, hdone⟩
  | sent hsender hu hstage => exact ⟨t, hset _ hu (by rw [hstage]; exact nofun), hid, hdone⟩
  | _ => exact ⟨t, ht, hid, hdone⟩

/-- The tasks keep their parameters, and new ones come last. -/
theorem map_params_set {tasks : List Task} {j : ℕ} {t t' : Task} (ht : tasks[j]? = some t)
    (hparams : t'.params = t.params) : (tasks.set j t').map (·.params) = tasks.map (·.params) := by
  obtain ⟨hlt, rfl⟩ := List.getElem?_eq_some_iff.mp ht
  have hlt' : j < (tasks.map (·.params)).length := by rwa [List.length_map]
  have hself : (tasks.map (·.params))[j] = tasks[j].params := List.getElem_map _
  rw [List.map_set, hparams, ← hself]
  exact List.set_getElem_self hlt'

/-! ## A peer by itself -/

/-- Nobody has the socket mutex but a call. -/
theorem held_of_ne_call (h : Held s) (hmutex : ∀ i, s.connection.socketMutex ≠ some (.call i))
    (k : Connection) : Held { s with connection := k } :=
  fun i c hc hholds => absurd (h i c hc hholds) (hmutex i)

/-- The calls do not notice what other threads do with the stream and a mutex that no call has. -/
theorem Caller.withSocket (h : Caller s) (hmutex : ∀ i, s.connection.socketMutex ≠ some (.call i))
    (stream : Writer) (socketMutex : Option SocketHolder) :
    Caller { s with connection := { s.connection with stream, socketMutex } } :=
  ⟨⟨h.numbered.counter, h.numbered.below, h.numbered.distinct⟩, h.counter, h.hasId,
    held_of_ne_call h.held hmutex _⟩

theorem fails_sendRPCAnswer (config : Config) (requestId : UInt64) (answer : List UInt8)
    (executionStatus : UInt8) (w : Writer) :
    (sendRPCAnswer config requestId answer executionStatus w).2.fails = w.fails := by
  obtain ⟨part, hpart⟩ := (writes_sendRPCAnswer config requestId answer executionStatus).puts w
  exact hpart.fails

theorem fails_writeQuery (config : Config) (requestId : UInt64) (args : CallArgs) (w : Writer) :
    (writeQuery config requestId args.methodName args.output args.extraJWTTokenAuth w).2.fails
      = w.fails := by
  by_cases hlimits : args.methodName.length ≤ 254 ∧
    args.output.length ≤ config.maxMessageSize.toNat
  · obtain ⟨part, hpart⟩ := (@writes_writeQuery config requestId args hlimits.1 hlimits.2).puts w
    exact hpart.fails
  · have hover : 254 < args.methodName.length ∨
        config.maxMessageSize.toNat < args.output.length := by omega
    obtain ⟨part, hpart, -⟩ := @writeQuery_over_leaves config requestId args hover w
    exact hpart.fails

/-- No step changes which writes fail. -/
theorem fails_step {a : RpcAction} (hs : step env s a = some (s', ())) :
    s'.connection.stream.fails = s.connection.stream.fails := by
  obtain hstream | ⟨i, c, -, -, rfl⟩ := stream_step hs
  · rw [hstream]
  · exact fails_writeQuery env.config _ c.args _

/-- What a peer has received is a step of its calls. -/
theorem step_receive {f : AnswerFrame} (hrunning : s.handler = .running) (hid : f.requestId ≠ 0) :
    step env s (.receive f) = some (processIncomingAnswer env s f, ()) := by
  simp only [step, if_pos (And.intro hrunning hid)]

theorem Alone.step {a : PeerAction} (h : Alone p) (hk : PeerKind penv incoming p a p') :
    Alone p' := by
  have hfree : p.sender ≠ none → ∀ i, p.rpc.connection.socketMutex ≠ some (.call i) := by
    intro hsender i hcall
    rw [h.sender hsender] at hcall
    cases hcall
  cases hk with
  | @rpc b rpc hown hs =>
    refine ⟨h.caller.step hs, ?_, fun hsender => ?_⟩
    · show ShutsDown rpc.connection.stream.fails
      rw [fails_step hs]
      exact h.shutsDown
    · refine socketMutex_other_step h.caller.held hs ?_ (h.sender hsender)
      rintro rfl
      cases hown
  | @answer arrived pushed f rest hret hrunning hread =>
    have hs := @step_receive penv.toEnv _ f hrunning (requestId_ne_zero_of_readIncoming hread)
    refine ⟨h.caller.step hs, ?_, fun hsender => ?_⟩
    · show ShutsDown (processIncomingAnswer penv.toEnv p.rpc f).connection.stream.fails
      rw [fails_step hs]
      exact h.shutsDown
    · exact socketMutex_other_step h.caller.held hs (by simp) (h.sender hsender)
  | locked sender hnone =>
    refine ⟨h.caller.withSocket (fun i => ?_) _ _, h.shutsDown, fun _ => rfl⟩
    rw [hnone]
    exact nofun
  | sent hsender ht hstage =>
    refine ⟨h.caller.withSocket (hfree ?_) _ _, ?_, fun hne => absurd rfl hne⟩
    · rw [hsender]
      exact Option.some_ne_none _
    · show ShutsDown (sendRPCAnswer _ _ _ _ _).2.fails
      rw [fails_sendRPCAnswer]
      exact h.shutsDown
  | closed hsender =>
    refine ⟨h.caller.withSocket (hfree ?_) _ _, ?_, fun hne => absurd rfl hne⟩
    · rw [hsender]
      exact Option.some_ne_none _
    · obtain ⟨part, hpart⟩ := (writes_writeU 1 0).puts p.rpc.connection.stream
      show ShutsDown (p.rpc.connection.stream.writeU 1 0).2.fails
      rw [hpart.fails]
      exact h.shutsDown
  | query hret hread hparse => exact ⟨h.caller, h.shutsDown, h.sender⟩
  | failed read hret => exact ⟨h.caller, h.shutsDown, h.sender⟩
  | started ht hstage => exact ⟨h.caller, h.shutsDown, h.sender⟩
  | executed ht hstage hran => exact ⟨h.caller, h.shutsDown, h.sender⟩
  | ended => exact ⟨h.caller, h.shutsDown, h.sender⟩

/-! ## Reading the other end -/

theorem streamBytes_append (frames frames' : List Frame) :
    streamBytes (frames ++ frames') = streamBytes frames ++ streamBytes frames' := by
  simp [streamBytes]

theorem CutFrame.cut {tail : List UInt8} (h : CutFrame tail) (config : Config) :
    Cut (readIncoming config) tail := by
  obtain rfl | ⟨frame, hfits, hprefix, hne⟩ := h
  · exact .inl rfl
  · exact .inr ⟨frame.bytes, delimited_bytes config hfits, hprefix, hne⟩

/-- **The next frame.**  What a peer reads of the stream of the other end is the next frame on
it. -/
theorem Took.next {parse : List UInt8 → Option Json} {config config' : Config} {q : Peer}
    {frames : List Frame} (h : Took parse p frames) (hq : Written config' q frames)
    (hret : p.ret = HandlerReturn.continue.code) {arrived : ℕ} {m : Incoming} {rest : List UInt8}
    (hread : readIncoming config ((q.rpc.connection.stream.sent.drop p.read).take arrived)
      = some (m, rest)) :
    ∃ n frame, frames[n]? = some frame ∧
      p.tasks.map (·.params) = (frames.take n).filterMap (Frame.params parse) ∧
      frame.incoming = some m ∧
      p.read + (((q.rpc.connection.stream.sent.drop p.read).take arrived).length - rest.length)
        = (streamBytes (frames.take (n + 1))).length := by
  obtain ⟨n, hn, htasks, hpos⟩ := h
  obtain ⟨tail, hsent, hcut, -⟩ := hq.stream
  have hunread : q.rpc.connection.stream.sent.drop p.read
      = ((frames.drop n).map Frame.bytes).flatten ++ tail := by
    have hsplit : streamBytes frames
        = streamBytes (frames.take n) ++ streamBytes (frames.drop n) := by
      rw [← streamBytes_append, List.take_append_drop]
    rw [hsent, hsplit, hpos hret, List.append_assoc, List.drop_left]
    rfl
  have hprefix : (q.rpc.connection.stream.sent.drop p.read).take arrived
      <+: ((frames.drop n).map Frame.bytes).flatten ++ tail := by
    rw [← hunread]
    exact List.take_prefix _ _
  have hdelimited : ∀ bytes ∈ (frames.drop n).map Frame.bytes,
      Delimited (readIncoming config) bytes := by
    intro bytes hbytes
    obtain ⟨frame, hframe, rfl⟩ := List.mem_map.mp hbytes
    exact delimited_bytes config (hq.fits frame (List.mem_of_mem_drop hframe))
  obtain ⟨bytes, later, hmessages, hwhole, hfront⟩ :=
    (stable_readIncoming config).next hdelimited (hcut.cut config) hprefix hread
  cases hdrop : frames.drop n with
  | nil =>
    rw [hdrop] at hmessages
    cases hmessages
  | cons frame frames' =>
    rw [hdrop, List.map_cons] at hmessages
    obtain ⟨rfl, -⟩ := List.cons_eq_cons.mp hmessages
    have hget : frames[n]? = some frame := by
      rw [← List.head?_drop, hdrop]
      rfl
    have hfits : frame.Fits := hq.fits frame (List.mem_of_getElem? hget)
    refine ⟨n, frame, hget, htasks, (readIncoming_bytes hfits hwhole).2, ?_⟩
    have htake : frames.take (n + 1) = frames.take n ++ [frame] := by
      rw [List.take_add_one, hget]
      rfl
    rw [hfront, htake, streamBytes_append, List.length_append, List.length_append, hpos hret]
    simp [streamBytes]

theorem params_of_incoming_answer (parse : List UInt8 → Option Json) {frame : Frame}
    {f : AnswerFrame} (h : frame.incoming = some (.answer f)) :
    frame = .answer f.requestId f.executionStatus f.payloadBytes ∧ frame.params parse = none := by
  cases frame with
  | answer requestId executionStatus text =>
    simp only [Frame.incoming] at h
    cases h
    exact ⟨rfl, rfl⟩
  | query requestId args => cases h
  | close => cases h

theorem params_of_incoming_query {parse : List UInt8 → Option Json} {frame : Frame}
    {q : ExecutionRequest} {payload : Json} (h : frame.incoming = some (.query q))
    (hparse : parse (cStr q.payloadBytes) = some payload) (pushed : Bool) :
    frame.params parse = some (taskOf q payload pushed).params := by
  cases frame with
  | query requestId args =>
    simp only [Frame.incoming] at h
    cases h
    simp only [Frame.params, taskOf, hparse]
    cases pushed <;> rfl
  | answer requestId executionStatus text => cases h
  | close => cases h

/-- **Tasks in order.**  The tasks of a peer stay the queries that it has read of the other end's
frames. -/
theorem Took.step {a : PeerAction} {config : Config} {q : Peer} {frames : List Frame}
    (h : Took penv.parse p frames) (hq : Written config q frames)
    (hk : PeerKind penv q.rpc.connection.stream.sent p a p') : Took penv.parse p' frames := by
  have hkeep : ∀ {p' : Peer}, p'.tasks.map (·.params) = p.tasks.map (·.params) →
      (p'.ret = HandlerReturn.continue.code → p'.ret = p.ret ∧ p'.read = p.read) →
      Took penv.parse p' frames := by
    intro p' htasks hret
    obtain ⟨n, hn, hmap, hpos⟩ := h
    refine ⟨n, hn, htasks.trans hmap, fun hcontinue => ?_⟩
    obtain ⟨hret', hread⟩ := hret hcontinue
    rw [hread]
    exact hpos (hret' ▸ hcontinue)
  have hlt : ∀ {n : ℕ} {frame : Frame}, frames[n]? = some frame → n + 1 ≤ frames.length := by
    intro n frame hframe
    exact (List.getElem?_eq_some_iff.mp hframe).1
  cases hk with
  | answer hret hrunning hread =>
    obtain ⟨n, frame, hframe, htasks, hincoming, hpos⟩ := h.next hq hret hread
    obtain ⟨-, hparams⟩ := params_of_incoming_answer penv.parse hincoming
    refine ⟨n + 1, hlt hframe, ?_, fun _ => hpos⟩
    rw [List.take_add_one, hframe, List.filterMap_append]
    simpa [hparams] using htasks
  | @query arrived pushed r payload rest hret hread hparse =>
    obtain ⟨n, frame, hframe, htasks, hincoming, hpos⟩ := h.next hq hret hread
    have hparams := params_of_incoming_query hincoming hparse pushed
    refine ⟨n + 1, hlt hframe, ?_, fun _ => hpos⟩
    show (p.tasks ++ [taskOf r payload pushed]).map (·.params) = _
    rw [List.take_add_one, hframe, List.filterMap_append, List.map_append, htasks]
    simp [hparams]
  | failed read hret => exact hkeep rfl fun hcontinue => absurd hcontinue hret
  | started ht hstage => exact hkeep (map_params_set ht rfl) fun _ => ⟨rfl, rfl⟩
  | executed ht hstage hran => exact hkeep (map_params_set ht rfl) fun _ => ⟨rfl, rfl⟩
  | sent hsender ht hstage => exact hkeep (map_params_set ht rfl) fun _ => ⟨rfl, rfl⟩
  | _ => exact hkeep rfl fun _ => ⟨rfl, rfl⟩

/-- A peer that has written more has not changed what the other end has taken. -/
theorem Took.append {parse : List UInt8 → Option Json} {frames : List Frame}
    (h : Took parse p frames) (frames' : List Frame) : Took parse p (frames ++ frames') := by
  obtain ⟨n, hn, htasks, hpos⟩ := h
  have htake : (frames ++ frames').take n = frames.take n := List.take_append_of_le_length hn
  refine ⟨n, ?_, ?_, ?_⟩
  · rw [List.length_append]
    omega
  · rw [htake]
    exact htasks
  · rw [htake]
    exact hpos

/-- A task has the id of a query. -/
theorem Took.requestId_ne_zero {parse : List UInt8 → Option Json} {frames : List Frame}
    (h : Took parse p frames) (hfits : ∀ frame ∈ frames, frame.Fits) {t : Task}
    (ht : t ∈ p.tasks) : t.params.requestId ≠ 0 := by
  obtain ⟨n, -, htasks, -⟩ := h
  have hmem : t.params ∈ (frames.take n).filterMap (Frame.params parse) := by
    rw [← htasks]
    exact List.mem_map_of_mem ht
  obtain ⟨frame, hframe, hparams⟩ := List.mem_filterMap.mp hmem
  have hfit := hfits frame (List.mem_of_mem_take hframe)
  cases frame with
  | query requestId args =>
    obtain ⟨payload, -, heq⟩ := Option.map_eq_some_iff.mp hparams
    rw [← heq]
    exact hfit.1
  | answer requestId executionStatus text => cases hparams
  | close => cases hparams

/-! ## Writing on the stream -/

/-- What a frame that is written does to a stream: it is behind the others as a whole, or it is cut
off, and then nothing will follow. -/
theorem stream_write {frames : List Frame} {tail : List UInt8} {w w' : Writer} {ok : Bool}
    {frame : Frame} {part : List UInt8} (hsent : w.sent = streamBytes frames ++ tail)
    (hcut : CutFrame tail) (htail : tail ≠ [] → Shut w) (hfits : frame.Fits)
    (hleaves : Leaves w w' ok frame.bytes part) :
    (part = frame.bytes ∧ w'.sent = streamBytes (frames ++ [frame])) ∨
      ∃ tail', w'.sent = streamBytes frames ++ tail' ∧ CutFrame tail' ∧
        (tail' ≠ [] → Shut w' ∨ ok = false) := by
  by_cases hnil : tail = []
  · subst hnil
    have hwrote : w'.sent = streamBytes frames ++ part := by
      rw [hleaves.sent, hsent, List.append_nil]
    by_cases hwhole : part = frame.bytes
    · left
      refine ⟨hwhole, ?_⟩
      rw [hwrote, hwhole, streamBytes_append]
      simp [streamBytes]
    · right
      refine ⟨part, hwrote, .inr ⟨frame, hfits, hleaves.isPrefix, hwhole⟩, fun _ => .inr ?_⟩
      exact Bool.eq_false_iff.mpr fun hok => hwhole (hleaves.whole hok)
  · right
    have hshut := htail hnil
    refine ⟨tail, ?_, hcut, fun _ => .inl (hleaves.stays_shut hshut)⟩
    rw [hleaves.sent, hleaves.shut hshut, List.append_nil, hsent]

/-- The frame is that of a call that has written it, or of a task that has answered. -/
def Frame.Of (config : Config) (p : Peer) : Frame → Prop
  | .query requestId args => ∃ (i : ℕ) (c : ExecCall), p.rpc.calls[i]? = some c ∧
      c.requestId = requestId.toNat ∧ c.args = args ∧ c.pc.transmitted = true
  | .answer requestId executionStatus text =>
      ∃ answer, p.Answered requestId answer executionStatus ∧ text = sentText config answer
  | .close => True

theorem Written.of_mem {config : Config} {frames : List Frame} (h : Written config p frames)
    {frame : Frame} (hframe : frame ∈ frames) : frame.Of config p := by
  cases frame with
  | query requestId args => exact h.queries hframe
  | answer requestId executionStatus text => exact h.answers hframe
  | close => trivial

/-- One more frame goes to the stream, as a whole or cut off. -/
theorem Written.snoc {config : Config} {frames : List Frame} (h : Written config p frames)
    (hold : ∀ frame ∈ frames, frame.Of config p') {frame : Frame} {ok : Bool} {part : List UInt8}
    (hfits : frame.Fits)
    (hleaves : Leaves p.rpc.connection.stream p'.rpc.connection.stream ok frame.bytes part)
    (hshut : Stalled p.rpc → Shut p.rpc.connection.stream)
    (hstalled : Shut p'.rpc.connection.stream ∨ ok = false → Stalled p'.rpc)
    (hnew : part = frame.bytes → frame.Of config p' ∧
      ∀ requestId, frame.queryId = some requestId → requestId ∉ frames.filterMap Frame.queryId) :
    ∃ later, Written config p' (frames ++ later) := by
  obtain ⟨tail, hsent, hcut, htail⟩ := h.stream
  obtain ⟨hwhole, hsent'⟩ | ⟨tail', hsent', hcut', htail'⟩ :=
    stream_write hsent hcut (fun hne => hshut (htail hne)) hfits hleaves
  · obtain ⟨hof, hid⟩ := hnew hwhole
    have hall : ∀ f ∈ frames ++ [frame], f.Fits ∧ f.Of config p' := by
      intro f hf
      obtain hin | hin := List.mem_append.mp hf
      · exact ⟨h.fits f hin, hold f hin⟩
      · rw [List.mem_singleton.mp hin]
        exact ⟨hfits, hof⟩
    refine ⟨[frame], ⟨[], by rw [List.append_nil]; exact hsent', .inl rfl,
      fun hne => absurd rfl hne⟩, fun f hf => (hall f hf).1, fun hmem => (hall _ hmem).2, ?_,
      fun hmem => (hall _ hmem).2⟩
    rw [List.filterMap_append, List.nodup_append]
    refine ⟨h.nodup, ?_, ?_⟩
    · cases hquery : frame.queryId <;> simp [hquery]
    · rintro requestId hin _ hlast rfl
      obtain ⟨_, hmem, hquery⟩ := List.mem_filterMap.mp hlast
      rw [List.mem_singleton.mp hmem] at hquery
      exact hid requestId hquery hin
  · refine ⟨[], ?_⟩
    rw [List.append_nil]
    exact ⟨⟨tail', hsent', hcut', fun hne => hstalled (htail' hne)⟩, h.fits,
      fun hmem => hold _ hmem, h.nodup, fun hmem => hold _ hmem⟩

/-- A peer in which nothing was written. -/
theorem Written.congr {config : Config} {frames : List Frame} (h : Written config p frames)
    (hstream : p'.rpc.connection.stream = p.rpc.connection.stream)
    (hstuck : Stuck p.rpc → Stuck p'.rpc)
    (hcalls : ∀ {i : ℕ} {c : ExecCall}, p.rpc.calls[i]? = some c →
      ∃ c', p'.rpc.calls[i]? = some c' ∧ Kept c c')
    (hanswered : ∀ {requestId : UInt64} {answer : List UInt8} {executionStatus : UInt8},
      p.Answered requestId answer executionStatus → p'.Answered requestId answer executionStatus) :
    Written config p' frames := by
  obtain ⟨tail, hsent, hcut, hstalled⟩ := h.stream
  refine ⟨⟨tail, by rw [hstream]; exact hsent, hcut, fun hne => ?_⟩, h.fits, ?_, h.nodup, ?_⟩
  · obtain hshut | hstuck' := hstalled hne
    · left
      rw [hstream]
      exact hshut
    · exact .inr (hstuck hstuck')
  · intro requestId args hmem
    obtain ⟨i, c, hc, hid, hargs, htransmitted⟩ := h.queries hmem
    obtain ⟨c', hc', hkept⟩ := hcalls hc
    obtain ⟨htransmitted', hid'⟩ := hkept.transmitted htransmitted
    exact ⟨i, c', hc', hid'.trans hid, hkept.args.trans hargs, htransmitted'⟩
  · intro requestId executionStatus text hmem
    obtain ⟨answer, hgiven, htext⟩ := h.answers hmem
    exact ⟨answer, hanswered hgiven, htext⟩

/-- What a call writes, by the outcome of its writes. -/
theorem transmit_eq (env : Env) (k : Connection) (c : ExecCall) :
    transmit env k c
      = ({ k with stream := (writeQuery env.config (.ofNat c.requestId) c.args.methodName
            c.args.output c.args.extraJWTTokenAuth k.stream).2 },
        if (writeQuery env.config (.ofNat c.requestId) c.args.methodName c.args.output
            c.args.extraJWTTokenAuth k.stream).1 then { c with pc := .sent }
        else
          { c with pc := .returned, error := ExecutionError.dataTransmissionFailure.report }) :=
  rfl

theorem transmit_call (env : Env) (k : Connection) (c : ExecCall) :
    (transmit env k c).2.args = c.args ∧ (transmit env k c).2.requestId = c.requestId ∧
      (transmit env k c).2.pc.transmitted = true := by
  rw [transmit_eq]
  dsimp only
  split_ifs
  · exact ⟨rfl, rfl, rfl⟩
  · exact ⟨rfl, rfl, rfl⟩

/-- A call is about to write: nobody else is, and nobody has kept the mutex. -/
theorem shut_of_sending {i : ℕ} {c : ExecCall} (h : Held s) (hc : s.calls[i]? = some c)
    (hpc : c.pc = .sending) (hstalled : Stalled s) : Shut s.connection.stream := by
  obtain hshut | ⟨j, d, hmutex, hd, hreturned⟩ := hstalled
  · exact hshut
  · have hmine := h i c hc (by rw [hpc]; rfl)
    rw [hmutex] at hmine
    cases hmine
    obtain rfl : d = c := Option.some.inj (hd.symm.trans hc)
    rw [hpc] at hreturned
    cases hreturned

/-- A call writes its query. -/
theorem Written.transmit {config : Config} {frames : List Frame} (h : Written config p frames)
    (halone : Alone p) {i : ℕ} {c : ExecCall} (hc : p.rpc.calls[i]? = some c)
    (hpc : c.pc = .sending) (hp' : p' = { p with
      rpc.connection := (FastRPC3.transmit penv.toEnv p.rpc.connection c).1
      rpc.calls := p.rpc.calls.set i (FastRPC3.transmit penv.toEnv p.rpc.connection c).2 }) :
    ∃ later, Written config p' (frames ++ later) := by
  have hshut := shut_of_sending halone.caller.held hc hpc
  have hzero : c.requestId ≠ 0 := halone.caller.hasId hc (by rw [hpc]; rfl)
  have hlt : c.requestId < 2 ^ 64 :=
    Nat.lt_trans (halone.caller.numbered.below hc) halone.caller.counter
  have hid : (UInt64.ofNat c.requestId).toNat = c.requestId := UInt64.toNat_ofNat_of_lt' hlt
  have hidne : UInt64.ofNat c.requestId ≠ 0 := by
    intro h0
    apply hzero
    rw [← hid, h0]
    rfl
  obtain ⟨hargs, hsame, htransmitted⟩ := transmit_call penv.toEnv p.rpc.connection c
  have hget : ∀ j, p'.rpc.calls[j]? = if i = j then
      some (FastRPC3.transmit penv.toEnv p.rpc.connection c).2 else p.rpc.calls[j]? := by
    intro j
    rw [hp']
    exact getElem?_set_of_some hc _ j
  -- The call has not written before.
  have hfirst : ∀ {j : ℕ} {d : ExecCall}, p.rpc.calls[j]? = some d → d.pc.transmitted = true →
      i ≠ j := by
    rintro j d hd hdtransmitted rfl
    obtain rfl : d = c := Option.some.inj (hd.symm.trans hc)
    rw [hpc] at hdtransmitted
    cases hdtransmitted
  have hold : ∀ frame ∈ frames, frame.Of config p' := by
    intro frame hframe
    have hof := h.of_mem hframe
    cases frame with
    | query requestId args =>
      obtain ⟨j, d, hd, hdid, hdargs, hdtransmitted⟩ := hof
      exact ⟨j, d, by rw [hget, if_neg (hfirst hd hdtransmitted)]; exact hd, hdid, hdargs,
        hdtransmitted⟩
    | answer requestId executionStatus text =>
      rw [hp']
      exact hof
    | close => trivial
  have hstream : p'.rpc.connection.stream = (writeQuery penv.config (.ofNat c.requestId)
      c.args.methodName c.args.output c.args.extraJWTTokenAuth p.rpc.connection.stream).2 := by
    rw [hp']
    rfl
  by_cases hlimits : c.args.methodName.length ≤ 254 ∧
    c.args.output.length ≤ penv.config.maxMessageSize.toNat
  · have hwrites := @writes_writeQuery penv.config (.ofNat c.requestId) c.args hlimits.1 hlimits.2
    obtain ⟨part, hpart⟩ := hwrites.puts p.rpc.connection.stream
    rw [← hstream] at hpart
    have hfits : (Frame.query (.ofNat c.requestId) c.args).Fits :=
      ⟨hidne, hlimits.1, length_fits hlimits.2⟩
    refine h.snoc hold hfits hpart hshut ?_ fun _ => ⟨?_, ?_⟩
    · rintro (hdown | hfalse)
      · exact .inl hdown
      · left
        rw [hstream]
        exact hwrites.closes _ halone.shutsDown hfalse
    · exact ⟨i, _, by rw [hget, if_pos rfl], hsame.trans hid.symm, hargs, htransmitted⟩
    · -- A frame with this id would be that of a call that has written.
      rintro requestId hnew hin
      obtain ⟨frame, hframe, hqueryId⟩ := List.mem_filterMap.mp hin
      cases frame with
      | query requestId' args =>
        cases hnew
        cases hqueryId
        obtain ⟨j, d, hd, hdid, -, hdtransmitted⟩ := h.queries hframe
        rw [hid] at hdid
        exact hfirst hd hdtransmitted (halone.caller.numbered.distinct hc hd hzero hdid.symm)
      | answer requestId' executionStatus text => cases hqueryId
      | close => cases hqueryId
  · have hover : 254 < c.args.methodName.length ∨
        penv.config.maxMessageSize.toNat < c.args.output.length := by omega
    obtain ⟨part, hpart, methodName, hlength, hprefix, hne⟩ :=
      @writeQuery_over_leaves penv.config (.ofNat c.requestId) c.args hover p.rpc.connection.stream
    rw [← hstream] at hpart
    have hfits : (Frame.query (.ofNat c.requestId) { c.args with methodName, output := [] }).Fits :=
      ⟨hidne, hlength, show 0 < 256 ^ 4 by decide⟩
    have hleaves : Leaves p.rpc.connection.stream p'.rpc.connection.stream false
        (Frame.query (.ofNat c.requestId) { c.args with methodName, output := [] }).bytes part :=
      ⟨hpart.sent, hprefix, nofun, hpart.shut, hpart.fails, hpart.writes⟩
    -- The call returns, and the mutex is not unlocked.
    refine h.snoc hold hfits hleaves hshut (fun _ => .inr ⟨i, _, ?_, by rw [hget, if_pos rfl], ?_⟩)
      fun hwhole => absurd hwhole hne
    · rw [hp']
      exact halone.caller.held i c hc (by rw [hpc]; rfl)
    · have hfalse := @writeQuery_over penv.config (.ofNat c.requestId) c.args.methodName
        c.args.output c.args.extraJWTTokenAuth p.rpc.connection.stream hover
      rw [transmit_eq]
      dsimp only
      rw [hfalse]
      rfl

/-- While another thread has the mutex, a stream that is stalled is shut down. -/
theorem shut_of_sender (halone : Alone p) (hsender : p.sender ≠ none) (hstalled : Stalled p.rpc) :
    Shut p.rpc.connection.stream := by
  obtain hshut | ⟨i, c, hmutex, -, -⟩ := hstalled
  · exact hshut
  · rw [halone.sender hsender] at hmutex
    cases hmutex

/-- A frame that no call has written. -/
theorem Written.write {config : Config} {frames : List Frame} (h : Written config p frames)
    (halone : Alone p) (hsender : p.sender ≠ none) (op : Writer → Bool × Writer) (frame : Frame)
    (hfits : frame.Fits) (hop : Writes op frame.bytes) (hquery : frame.queryId = none)
    (hstream : p'.rpc.connection.stream = (op p.rpc.connection.stream).2)
    (hcalls : p'.rpc.calls = p.rpc.calls)
    (hanswered : ∀ {requestId : UInt64} {answer : List UInt8} {executionStatus : UInt8},
      p.Answered requestId answer executionStatus → p'.Answered requestId answer executionStatus)
    (hanswer : ∀ {requestId : UInt64} {executionStatus : UInt8} {text : List UInt8},
      frame = .answer requestId executionStatus text →
      ∃ answer, p'.Answered requestId answer executionStatus ∧ text = sentText config answer) :
    ∃ later, Written config p' (frames ++ later) := by
  obtain ⟨part, hpart⟩ := hop.puts p.rpc.connection.stream
  rw [← hstream] at hpart
  refine h.snoc ?_ hfits hpart (shut_of_sender halone hsender) ?_ fun _ => ⟨?_, ?_⟩
  · intro frame' hframe
    have hof := h.of_mem hframe
    cases frame' with
    | query requestId args =>
      rw [Frame.Of, hcalls]
      exact hof
    | answer requestId executionStatus text =>
      obtain ⟨answer, hgiven, htext⟩ := hof
      exact ⟨answer, hanswered hgiven, htext⟩
    | close => trivial
  · rintro (hdown | hfalse)
    · exact .inl hdown
    · left
      rw [hstream]
      exact hop.closes _ halone.shutsDown hfalse
  · cases frame with
    | query requestId args => cases hquery
    | answer requestId executionStatus text => exact hanswer rfl
    | close => trivial
  · rw [hquery]
    exact nofun

theorem stream_processIncomingAnswer (env : Env) (s : RpcState) (f : AnswerFrame) :
    (processIncomingAnswer env s f).connection.stream = s.connection.stream := by
  unfold processIncomingAnswer
  split_ifs
  · split
    · rfl
    · rfl
  · rfl

/-- **One stream, whole frames.**  A step of a peer puts whole frames behind those on its stream,
and leaves at most a cut one behind them. -/
theorem Written.step {a : PeerAction} {frames : List Frame} (h : Written penv.config p frames)
    (halone : Alone p) (hids : ∀ t ∈ p.tasks, t.params.requestId ≠ 0)
    (hk : PeerKind penv incoming p a p') : ∃ later, Written penv.config p' (frames ++ later) := by
  have hanswered : ∀ {requestId : UInt64} {answer : List UInt8} {executionStatus : UInt8},
      p.Answered requestId answer executionStatus → p'.Answered requestId answer executionStatus :=
    fun hgiven => hgiven.step hk
  -- Most steps write nothing.
  have hquiet : p'.rpc.connection.stream = p.rpc.connection.stream →
      (Stuck p.rpc → Stuck p'.rpc) →
      (∀ {i : ℕ} {c : ExecCall}, p.rpc.calls[i]? = some c →
        ∃ c', p'.rpc.calls[i]? = some c' ∧ Kept c c') →
      ∃ later, Written penv.config p' (frames ++ later) := fun hstream hstuck hcalls =>
    ⟨[], by rw [List.append_nil]; exact h.congr hstream hstuck hcalls hanswered⟩
  have hsame : p'.rpc = p.rpc → ∃ later, Written penv.config p' (frames ++ later) := by
    intro hrpc
    refine hquiet (by rw [hrpc]) (by rw [hrpc]; exact id) ?_
    intro i c hc
    exact ⟨c, by rw [hrpc]; exact hc, .refl c⟩
  cases hk with
  | @rpc b rpc hown hs =>
    obtain hstream | ⟨i, c, hc, hpc, rfl⟩ := stream_step hs
    · exact hquiet hstream (fun hstuck => hstuck.step halone.caller.held hs)
        (fun hc => kept_step hs hc)
    · exact h.transmit halone hc hpc rfl
  | @answer arrived pushed f rest hret hrunning hread =>
    have hs := @step_receive penv.toEnv _ f hrunning (requestId_ne_zero_of_readIncoming hread)
    exact hquiet (stream_processIncomingAnswer _ _ _)
      (fun hstuck => hstuck.step halone.caller.held hs) (fun hc => kept_step hs hc)
  | locked sender hfree =>
    refine hquiet rfl ?_ fun hc => ⟨_, hc, .refl _⟩
    rintro ⟨i, c, hmutex, -⟩
    rw [hfree] at hmutex
    cases hmutex
  | @sent j t answer executionStatus hsender ht hstage =>
    have hne : p.sender ≠ none := by
      rw [hsender]
      exact Option.some_ne_none _
    refine h.write halone hne (sendRPCAnswer penv.config t.params.requestId answer executionStatus)
      (.answer t.params.requestId executionStatus (sentText penv.config answer)) ?_
      (writes_sendRPCAnswer _ _ _ _) rfl rfl rfl hanswered ?_
    · exact ⟨hids t (List.mem_of_getElem? ht), length_fits (length_sentText_le _ _)⟩
    · intro requestId executionStatus' text heq
      cases heq
      refine ⟨answer, ⟨{ t with stage := .done answer executionStatus }, ?_, rfl, rfl⟩, rfl⟩
      exact List.mem_of_getElem? ((getElem?_set_of_some ht _ j).trans (if_pos rfl))
  | closed hsender =>
    have hne : p.sender ≠ none := by
      rw [hsender]
      exact Option.some_ne_none _
    exact h.write halone hne _ .close trivial (writes_writeU 1 0) rfl rfl rfl hanswered nofun
  | query hret hread hparse => exact hsame rfl
  | failed read hret => exact hsame rfl
  | started ht hstage => exact hsame rfl
  | executed ht hstage hran => exact hsame rfl
  | ended => exact hsame rfl

/-! ## Answers that were received -/

/-- An answer that is received is the next frame of the other end, which a task has written. -/
theorem Heard.step {a : PeerAction} {config : Config} {q : Peer} {frames : List Frame}
    (h : Heard penv config p q) (htook : Took penv.parse p frames)
    (hq : Written config q frames) (hk : PeerKind penv q.rpc.connection.stream.sent p a p') :
    Heard penv config p' q := by
  obtain ⟨past, hsourced, hpast⟩ := h
  cases hk with
  | @rpc b rpc hown hs =>
    refine ⟨_, hsourced.step hs, fun t ht f hinput => ?_⟩
    obtain hold | hnew := List.mem_append.mp ht
    · exact hpast t hold f hinput
    · rw [List.mem_singleton.mp hnew] at hinput
      subst hinput
      cases hown
  | @answer arrived pushed f rest hret hrunning hread =>
    have hs := @step_receive penv.toEnv _ f hrunning (requestId_ne_zero_of_readIncoming hread)
    obtain ⟨n, frame, hframe, -, hincoming, -⟩ := htook.next hq hret hread
    obtain ⟨rfl, -⟩ := params_of_incoming_answer penv.parse hincoming
    refine ⟨_, hsourced.step hs, fun t ht f' hinput => ?_⟩
    obtain hold | hnew := List.mem_append.mp ht
    · exact hpast t hold f' hinput
    · rw [List.mem_singleton.mp hnew] at hinput
      cases hinput
      exact hq.answers (List.mem_of_getElem? hframe)
  | locked sender hfree => exact ⟨past, ⟨hsourced.stored, hsourced.reports⟩, hpast⟩
  | sent hsender ht hstage => exact ⟨past, ⟨hsourced.stored, hsourced.reports⟩, hpast⟩
  | closed hsender => exact ⟨past, ⟨hsourced.stored, hsourced.reports⟩, hpast⟩
  | query hret hread hparse => exact ⟨past, hsourced, hpast⟩
  | failed read hret => exact ⟨past, hsourced, hpast⟩
  | started ht hstage => exact ⟨past, hsourced, hpast⟩
  | executed ht hstage hran => exact ⟨past, hsourced, hpast⟩
  | ended => exact ⟨past, hsourced, hpast⟩

/-! ## Both ends -/

variable {envs : Side → PeerEnv} {sys sys' : System}

/-- What holds of a connection, with the frames that each end has on its stream. -/
structure Connected (envs : Side → PeerEnv) (sys : System) (frames : Side → List Frame) : Prop where
  alone : ∀ side, Alone (sys side)
  written : ∀ side, Written (envs side).config (sys side) (frames side)
  took : ∀ side, Took (envs side).parse (sys side) (frames side.other)
  heard : ∀ side, Heard (envs side) (envs side.other).config (sys side) (sys side.other)

theorem connected_fresh (envs : Side → PeerEnv) (maps : Side → SafeMap String Unit ℕ)
    {fails : Side → ℕ → Option ℕ} (hfails : ∀ side, ShutsDown (fails side)) :
    Connected envs (System.fresh maps fails) fun _ => [] := by
  refine ⟨fun side => ?_, fun side => ?_, fun side => ?_, fun side => ?_⟩
  · refine ⟨⟨numbered_fresh _ _, show 1 < 2 ^ 64 by decide, ?_, ?_⟩, hfails side, fun hne =>
      absurd rfl hne⟩
    · intro i c hc
      simp [System.fresh, FastRPC3.fresh] at hc
    · intro i c hc
      simp [System.fresh, FastRPC3.fresh] at hc
  · refine ⟨⟨[], rfl, .inl rfl, fun hne => absurd rfl hne⟩, ?_, ?_, List.nodup_nil, ?_⟩
    · intro frame hframe
      cases hframe
    · intro requestId args hquery
      cases hquery
    · intro requestId executionStatus text hanswer
      cases hanswer
  · exact ⟨0, Nat.zero_le _, rfl, fun _ => rfl⟩
  · refine ⟨[], sourced_fresh _ (maps side) _, fun t ht => ?_⟩
    cases ht

/-- **What a step keeps.**  One end takes a step; the other one keeps what it has taken and
heard. -/
theorem Connected.step {frames : Side → List Frame} {a : Side × PeerAction}
    (h : Connected envs sys frames) (hs : System.step envs sys a = some (sys', ())) :
    ∃ frames', Connected envs sys' frames' := by
  obtain ⟨side, a⟩ := a
  obtain ⟨p', hpeer, heq⟩ := Option.map_eq_some_iff.mp hs
  cases heq
  dsimp only at hpeer ⊢
  have hk := peerStep_kind hpeer
  have hids : ∀ t ∈ (sys side).tasks, t.params.requestId ≠ 0 := fun t ht =>
    (h.took side).requestId_ne_zero (h.written side.other).fits ht
  obtain ⟨later, hwritten⟩ := (h.written side).step (h.alone side) hids hk
  have hne := side.other_ne
  have hself : Function.update sys side p' side = p' := Function.update_self side p' sys
  have hother : Function.update sys side p' side.other = sys side.other :=
    Function.update_of_ne hne p' sys
  have hframes : Function.update frames side (frames side ++ later) side = frames side ++ later :=
    Function.update_self _ _ _
  have hframes' : Function.update frames side (frames side ++ later) side.other
      = frames side.other := Function.update_of_ne hne _ _
  refine ⟨Function.update frames side (frames side ++ later), fun side' => ?_, fun side' => ?_,
    fun side' => ?_, fun side' => ?_⟩
  · obtain rfl | rfl := side.eq_or_eq_other side'
    · rw [hself]
      exact (h.alone side').step hk
    · rw [hother]
      exact h.alone side.other
  · obtain rfl | rfl := side.eq_or_eq_other side'
    · rw [hself, hframes]
      exact hwritten
    · rw [hother, hframes']
      exact h.written side.other
  · obtain rfl | rfl := side.eq_or_eq_other side'
    · rw [hself, hframes']
      exact (h.took side').step (h.written side'.other) hk
    · rw [hother, Side.other_other, hframes]
      have htook := h.took side.other
      rw [Side.other_other] at htook
      exact htook.append later
  · obtain rfl | rfl := side.eq_or_eq_other side'
    · rw [hself, hother]
      exact (h.heard side').step (h.took side') (h.written side'.other) hk
    · rw [hother, Side.other_other, hself]
      have hheard := h.heard side.other
      rw [Side.other_other] at hheard
      obtain ⟨past, hsourced, hpast⟩ := hheard
      refine ⟨past, hsourced, fun t ht f hinput => ?_⟩
      obtain ⟨answer, hgiven, htext⟩ := hpast t ht f hinput
      exact ⟨answer, hgiven.step hk, htext⟩

/-- What holds at the end of every run. -/
theorem connected_of_reach {maps : Side → SafeMap String Unit ℕ} {fails : Side → ℕ → Option ℕ}
    (hfails : ∀ side, ShutsDown (fails side)) {actions : List (Side × PeerAction)}
    (hrun : reach (System.step envs) (System.fresh maps fails) actions = some sys) :
    ∃ frames, Connected envs sys frames := by
  apply reach_invariant (fun sys => ∃ frames, Connected envs sys frames) _
    ⟨_, connected_fresh envs maps hfails⟩ hrun
  rintro sys a - sys' output ⟨frames, h⟩ hs
  exact h.step hs

/-! ## Calls and tasks -/

/-- The task has the request id of the call, the name of its method, its payload as the other end
reads it, and its token. -/
structure ExecutedFor (parse : List UInt8 → Option Json) (c : ExecCall) (t : Task) : Prop where
  requestId : t.params.requestId.toNat = c.requestId
  methodName : t.params.methodName = latin1 c.args.methodName
  payload : parse (cStr c.args.output) = some t.params.payload
  extraTokenAuth : t.params.extraTokenAuth =
    if c.args.extraJWTTokenAuth ≠ [] then some (wireToken c.args.extraJWTTokenAuth) else none

/-- Every task of a peer is that of a call of the other end. -/
theorem Connected.exists_call {frames : Side → List Frame} (h : Connected envs sys frames)
    {side : Side} {t : Task} (ht : t ∈ (sys side).tasks) :
    ∃ (i : ℕ) (c : ExecCall), (sys side.other).rpc.calls[i]? = some c ∧
      ExecutedFor (envs side).parse c t := by
  obtain ⟨n, -, htasks, -⟩ := h.took side
  have hmem : t.params ∈ ((frames side.other).take n).filterMap
      (Frame.params (envs side).parse) := by
    rw [← htasks]
    exact List.mem_map_of_mem ht
  obtain ⟨frame, hframe, hparams⟩ := List.mem_filterMap.mp hmem
  cases frame with
  | query requestId args =>
    obtain ⟨payload, hpayload, heq⟩ := Option.map_eq_some_iff.mp hparams
    obtain ⟨i, c, hc, hid, hargs, -⟩ := (h.written side.other).queries (List.mem_of_mem_take hframe)
    subst hargs
    refine ⟨i, c, hc, ?_, ?_, ?_, ?_⟩
    · rw [← heq, hid]
    · rw [← heq]
    · rw [← heq]
      exact hpayload
    · rw [← heq]
  | answer requestId executionStatus text => cases hparams
  | close => cases hparams

theorem sublist_requestIds (parse : List UInt8 → Option Json) (frames : List Frame) :
    ((frames.filterMap (Frame.params parse)).map (·.requestId)).Sublist
      (frames.filterMap Frame.queryId) := by
  induction frames with
  | nil => exact List.Sublist.refl _
  | cons frame frames ih =>
    cases frame with
    | query requestId args =>
      cases hparse : parse (cStr args.output) with
      | none =>
        simp only [List.filterMap_cons, Frame.params, hparse, Option.map_none, Frame.queryId]
        exact ih.cons _
      | some payload =>
        simp only [List.filterMap_cons, Frame.params, hparse, Option.map_some, Frame.queryId,
          List.map_cons]
        exact ih.cons_cons _
    | answer requestId executionStatus text => exact ih
    | close => exact ih

/-- No two tasks of a peer have one request id. -/
theorem Connected.eq_of_requestId {frames : Side → List Frame} (h : Connected envs sys frames)
    {side : Side} {j k : ℕ} {t u : Task} (ht : (sys side).tasks[j]? = some t)
    (hu : (sys side).tasks[k]? = some u) (hid : t.params.requestId = u.params.requestId) :
    j = k := by
  obtain ⟨n, -, htasks, -⟩ := h.took side
  have hnodup : (((sys side).tasks.map (·.params)).map (·.requestId)).Nodup := by
    rw [htasks]
    apply List.Nodup.sublist _ (h.written side.other).nodup
    exact (sublist_requestIds _ _).trans ((List.take_sublist n _).filterMap _)
  rw [List.map_map] at hnodup
  have hids : ∀ {k : ℕ} {t : Task}, (sys side).tasks[k]? = some t →
      ((sys side).tasks.map ((·.requestId) ∘ (·.params)))[k]? = some t.params.requestId := by
    intro k t ht
    rw [List.getElem?_map, ht]
    rfl
  have hlt : j < ((sys side).tasks.map ((·.requestId) ∘ (·.params))).length :=
    (List.getElem?_eq_some_iff.mp (hids ht)).1
  apply (List.getElem?_inj hlt hnodup).mp
  rw [hids ht, hids hu, hid]

/-- **Remote calls.**  A call that reports an answer has exactly one task at the other end, made
from the arguments of the call, and reports what that task has answered. -/
theorem Connected.executed {frames : Side → List Frame} (h : Connected envs sys frames)
    {side : Side} {i : ℕ} {c : ExecCall} (hc : (sys side).rpc.calls[i]? = some c)
    (hanswer : IsAnswer c.error) :
    ∃ (j : ℕ) (t : Task) (answer : List UInt8) (executionStatus : UInt8),
      (sys side.other).tasks[j]? = some t ∧ ExecutedFor (envs side.other).parse c t ∧
      (∀ (k : ℕ) (u : Task), (sys side.other).tasks[k]? = some u →
        u.params.requestId.toNat = c.requestId → k = j) ∧
      t.stage = .done answer executionStatus ∧ c.error = answerReport executionStatus ∧
      (envs side).parse (cStr (sentText (envs side.other).config answer)) = some c.r := by
  obtain ⟨past, hsourced, hpast⟩ := h.heard side
  obtain ⟨executionStatus, hreport, u, hu, f, hinput, hid, -, hparse, hstatus⟩ :=
    (hsourced.reports i c hc).taken hanswer
  obtain ⟨answer, ⟨t, ht, htid, hdone⟩, htext⟩ := hpast u hu f hinput
  obtain ⟨j, hj⟩ := List.getElem?_of_mem ht
  -- The call behind the task has the id of this one, so it is this one.
  obtain ⟨i', c', hc', hexecuted⟩ := h.exists_call ht
  rw [Side.other_other] at hc'
  have hsame : c'.requestId = c.requestId := by rw [← hexecuted.requestId, htid, hid]
  have hzero : c'.requestId ≠ 0 := by
    rw [← hexecuted.requestId]
    intro hzero
    have hfits : ∀ frame ∈ frames side.other.other, frame.Fits := by
      rw [Side.other_other]
      exact (h.written side).fits
    exact (h.took side.other).requestId_ne_zero hfits ht (UInt64.toNat_inj.mp hzero)
  obtain rfl := (h.alone side).caller.numbered.distinct hc' hc hzero hsame
  obtain rfl : c' = c := Option.some.inj (hc'.symm.trans hc)
  refine ⟨j, t, answer, f.executionStatus, hj, hexecuted, fun k v hv hvid => ?_, hdone, ?_, ?_⟩
  · refine h.eq_of_requestId hv hj (UInt64.toNat_inj.mp ?_)
    rw [hvid, hexecuted.requestId]
  · rw [hstatus]
    exact hreport
  · rw [← htext]
    exact hparse

end FastRPC3

end Mantids
