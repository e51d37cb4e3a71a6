/-
# Error answers

When the queue is full, and when an answer is too long, `sendRPCAnswer` sends the execution
status with an empty text.  The receiver only keeps a status whose text is a JSON document: it
takes the empty text for a malformed answer and erases the request, so the call that waits for
it never learns the status.

* `ErrorAnswer` — the bytes of an error answer;
* `Forgotten` — a call whose request was erased;
* `error_answer_never_understood` — what becomes of the call, in every run.
-/
import Mantids.FastRpcWait

namespace Mantids

namespace FastRPC3

open Run SocketStream SocketStream.Writer

variable {env : Env} {s s' : RpcState} {i requestId : ℕ}

/-! ## The bytes of an error answer -/

/-- The frame of an answer on the wire. -/
def answerBytes (requestId : UInt64) (executionStatus : UInt8) (text : List UInt8) : List UInt8 :=
  BigEndian.encode 1 letterA.toNat ++ (BigEndian.encode 8 requestId.toNat ++
    (BigEndian.encode 1 executionStatus.toNat ++ blockBytes 4 text))

/-- The text that goes out: nothing, when the answer is too long. -/
def sentText (config : Config) (answer : List UInt8) : List UInt8 :=
  if answer.length ≤ config.maxMessageSize.toNat then answer else []

theorem length_sentText_le (config : Config) (answer : List UInt8) :
    (sentText config answer).length ≤ config.maxMessageSize.toNat := by
  unfold sentText
  split_ifs with h
  · exact h
  · exact Nat.zero_le _

theorem sends_sendRPCAnswer (config : Config) (requestId : UInt64) (answer : List UInt8)
    (executionStatus : UInt8) :
    Sends (sendRPCAnswer config requestId answer executionStatus)
      (answerBytes requestId executionStatus (sentText config answer))
      (1 + (1 + (1 + blockWrites 4 (sentText config answer)))) :=
  (sends_writeU 1 letterA.toNat).andThen <| (sends_writeU 8 requestId.toNat).andThen <|
    (sends_writeU 1 executionStatus.toNat).andThen <|
      sends_writeStringEx 4 (length_sentText_le config answer)

/-- The fields before the text of an answer are read as they were sent. -/
theorem readMessage_fields {config : Config} {requestId : UInt64} (hid : requestId ≠ 0)
    (executionStatus : UInt8) (text rest : List UInt8) :
    readMessage config (answerBytes requestId executionStatus text ++ rest)
      = match readBlockWAllocEx 4 config.maxMessageSize.toNat (blockBytes 4 text ++ rest) with
        | (.failed, _, s) => (.answer (.error (-3)), s)
        | (.outOfBounds, _, s) => (.answer .outOfBounds, s)
        | (.read payloadBytes, _, s) =>
          (.answer (.ok ⟨requestId, executionStatus, payloadBytes⟩), s) := by
  have hidNat : requestId.toNat ≠ 0 := fun h => hid (UInt64.toNat_inj.mp h)
  have hletter : letterA.toNat < 256 ^ 1 := letterA.toNat_lt
  have hidFits : requestId.toNat < 256 ^ 8 := requestId.toNat_lt
  have hstatus : executionStatus.toNat < 256 ^ 1 := executionStatus.toNat_lt
  have hbytes : answerBytes requestId executionStatus text ++ rest
      = BigEndian.encode 1 letterA.toNat ++ (BigEndian.encode 8 requestId.toNat ++
        (BigEndian.encode 1 executionStatus.toNat ++ (blockBytes 4 text ++ rest))) := by
    simp [answerBytes]
  rw [hbytes, readMessage]
  simp only [readU_encode hletter, if_true, readAnswer, readU_encode hidFits, if_neg hidNat,
    readU_encode hstatus, UInt64.ofNat_toNat, UInt8.ofNat_toNat]
  obtain ⟨data, maxAlloc, s, hpayload⟩ : ∃ data maxAlloc s,
    readBlockWAllocEx 4 config.maxMessageSize.toNat (blockBytes 4 text ++ rest)
      = (data, maxAlloc, s) := ⟨_, _, _, rfl⟩
  rw [hpayload]
  cases data with
  | failed => rfl
  | outOfBounds => rfl
  | read payloadBytes => rfl

/-- An answer within the receiver's limit, and with a buffer, is read as it was sent. -/
theorem readMessage_answerBytes {config : Config} {requestId : UInt64} (hid : requestId ≠ 0)
    (executionStatus : UInt8) {text : List UInt8}
    (htext : text.length ≤ config.maxMessageSize.toNat) (hroom : text.length + 1 < 2 ^ 32)
    (rest : List UInt8) :
    readMessage config (answerBytes requestId executionStatus text ++ rest)
      = (.answer (.ok ⟨requestId, executionStatus, text⟩), rest) := by
  rw [readMessage_fields hid,
    readBlockWAllocEx_blockBytes (length_fits htext) (allocated_of_lt hroom) htext]

/-- The error answers to an accepted query, as bytes on the wire, with their id and status. -/
inductive ErrorAnswer (config : Config) (parse : List UInt8 → Option Json) :
    List UInt8 → UInt64 → UInt8 → Prop where
  /-- The query was read and its payload parsed, and the queue is full. -/
  | dropped {s rest : List UInt8} {q : ExecutionRequest} {payload : Json}
      {pushTask : TaskFunction → TaskParameters → Bool}
      (hread : readExecutionRequest config s = (.ok q, rest))
      (hparse : parse (cStr q.payloadBytes) = some payload)
      (hfull : ∀ task params, pushTask task params = false) :
      ErrorAnswer config parse
        (processIncomingExecutionRequest config parse pushTask s {}).socket.sent
        q.requestId execStatusErrRemoteQueueOverflow
  /-- The text of the answer is too long. -/
  | oversized {requestId : UInt64} {answer : List UInt8} (executionStatus : UInt8)
      (hid : requestId ≠ 0) (hlong : config.maxMessageSize.toNat < answer.length) :
      ErrorAnswer config parse (sendRPCAnswer config requestId answer executionStatus {}).2.sent
        requestId executionStatus

/-- A query with the id 0 is not accepted. -/
theorem requestId_ne_zero_of_read {config : Config} {s rest : List UInt8} {q : ExecutionRequest}
    (h : readExecutionRequest config s = (.ok q, rest)) : q.requestId ≠ 0 := by
  obtain ⟨s₁, s₂, maxAlloc, hq⟩ := readExecutionRequest_ok_iff.mp h
  have hfits : (readU 8 s).1 < 2 ^ 64 := readU_lt 8 s
  intro hzero
  apply hq.requestId_ne
  rw [← UInt64.toNat_ofNat_of_lt' hfits, ← hq.requestId, hzero]
  rfl

theorem sent_sendRPCAnswer (config : Config) (requestId : UInt64) (answer : List UInt8)
    (executionStatus : UInt8) :
    (sendRPCAnswer config requestId answer executionStatus {}).2.sent
      = answerBytes requestId executionStatus (sentText config answer) := by
  rw [((sends_sendRPCAnswer config requestId answer executionStatus) {}).1 (fun _ _ => rfl)]
  rfl

/-- An error answer arrives as a frame with an empty text. -/
theorem ErrorAnswer.read {config config' : Config} {parse : List UInt8 → Option Json}
    {sent : List UInt8} {requestId : UInt64} {executionStatus : UInt8}
    (h : ErrorAnswer config parse sent requestId executionStatus) (rest : List UInt8) :
    readMessage config' (sent ++ rest) =
      (.answer (.ok ⟨requestId, executionStatus, []⟩), rest) := by
  cases h with
  | @dropped s rest' q payload pushTask hread hparse hfull =>
    have hsent : (processIncomingExecutionRequest config parse pushTask s {}).socket.sent
        = answerBytes q.requestId execStatusErrRemoteQueueOverflow [] := by
      unfold processIncomingExecutionRequest
      rw [hread]
      dsimp only
      rw [hparse]
      dsimp only
      rw [if_neg (by rw [hfull]; exact Bool.false_ne_true)]
      show (sendRPCAnswer config q.requestId [] execStatusErrRemoteQueueOverflow {}).2.sent = _
      rw [sent_sendRPCAnswer, sentText, ite_self]
    rw [hsent]
    exact readMessage_answerBytes (requestId_ne_zero_of_read hread) _ (Nat.zero_le _) (by decide)
      rest
  | oversized executionStatus hid hlong =>
    rw [sent_sendRPCAnswer, sentText, if_neg (Nat.not_le.mpr hlong)]
    exact readMessage_answerBytes hid _ (Nat.zero_le _) (by decide) rest

/-! ## A call whose request was erased -/

/-- The call waits for a request that is not pending any more, or it has left the wait without an
answer. -/
def Forgotten (s : RpcState) (i requestId : ℕ) : Prop :=
  ∃ c : ExecCall, s.calls[i]? = some c ∧ c.requestId = requestId ∧
    (((c.pc = .beforeWait ∨ c.pc.inWait = true) ∧ requestId ∉ s.connection.pendingRequests ∧
        s.connection.answers requestId = none) ∨
      (c.pc.out = true ∧ (c.error = ExecutionError.timeout.report ∨
        c.error = ExecutionError.connectionLost.report)))

/-- What the call itself does without its request. -/
theorem go_forgotten {m m' : SafeMap String Unit ℕ} {k k' : Connection} {c c' : ExecCall}
    (hpc : c.pc = .beforeWait ∨ c.pc.inWait = true) (hanswer : k.answers c.requestId = none)
    (h : go env m k i c = some (m', k', c')) :
    k' = k ∧ c'.requestId = c.requestId ∧ ((c'.pc = .beforeWait ∨ c'.pc.inWait = true) ∨
      (c'.pc.out = true ∧ c'.error = ExecutionError.connectionLost.report)) := by
  cases hc : c.pc with
  | beforeWait =>
    simp only [go, hc] at h
    cases h
    exact ⟨rfl, rfl, .inl (.inr rfl)⟩
  | waiting notified =>
    simp only [go, hc, wake, hanswer] at h
    split_ifs at h
    · cases h
      exact ⟨rfl, rfl, .inr ⟨rfl, rfl⟩⟩
    · cases h
      exact ⟨rfl, rfl, .inl (.inl rfl)⟩
  | _ =>
    rw [hc] at hpc
    obtain hpc | hpc := hpc <;> cases hpc

theorem notify_of_waits {c : ExecCall} (hpc : c.pc = .beforeWait ∨ c.pc.inWait = true) :
    c.notify.pc = .beforeWait ∨ c.notify.pc.inWait = true := by
  obtain hbefore | hin := hpc
  · left
    unfold ExecCall.notify
    rw [hbefore]
    exact hbefore
  · right
    rw [notify_of_inWait hin]
    rfl

/-- Once forgotten, a request stays forgotten. -/
theorem Forgotten.kept {a : RpcAction} (hnumbered : Numbered s) (hzero : requestId ≠ 0)
    (h : Forgotten s i requestId) (hs : step env s a = some (s', ())) :
    Forgotten s' i requestId := by
  obtain ⟨c, hc, rfl, hcase⟩ := h
  cases call_kind hnumbered hc hzero hs with
  | own hgo hc' =>
    obtain ⟨hpc, hpending, hanswer⟩ | ⟨hout, herror⟩ := hcase
    · obtain ⟨hconnection, hid', hpc' | ⟨hout', herror'⟩⟩ := go_forgotten hpc hanswer hgo
      · refine ⟨_, hc', hid', .inl ⟨hpc', ?_⟩⟩
        rw [hconnection]
        exact ⟨hpending, hanswer⟩
      · exact ⟨_, hc', hid', .inr ⟨hout', .inr herror'⟩⟩
    · have hsucceed : c.error.succeed ≠ none := by
        obtain herror | herror := herror <;> rw [herror] <;> exact Option.some_ne_none _
      obtain ⟨hout', -, herror', hid'⟩ := go_of_out hout hsucceed hgo
      exact ⟨_, hc', hid', .inr ⟨hout', by rw [herror']; exact herror⟩⟩
  | timeOut hpc hc' => exact ⟨_, hc', rfl, .inr ⟨rfl, .inl rfl⟩⟩
  | @stored _ f _ hpending' hparse hc' hconnection =>
    refine ⟨c.notify, hc', c.requestId_notify, ?_⟩
    obtain ⟨hpc, hpending, hanswer⟩ | ⟨hout, herror⟩ := hcase
    · have hne : c.requestId ≠ f.requestId.toNat := fun heq => hpending (heq ▸ hpending')
      refine .inl ⟨notify_of_waits hpc, ?_⟩
      rw [hconnection, Connection.answers_store, if_neg hne]
      exact ⟨hpending, hanswer⟩
    · rw [notify_of_out hout]
      exact .inr ⟨hout, herror⟩
  | malformed hpending' hc' hconnection =>
    refine ⟨c, hc', rfl, ?_⟩
    obtain ⟨hpc, hpending, hanswer⟩ | hout := hcase
    · rw [hconnection, Connection.pendingRequests_forget, Connection.answers_forget, hanswer,
        ite_self]
      exact .inl ⟨hpc, fun hmem => hpending (Finset.mem_of_mem_erase hmem), rfl⟩
    · exact .inr hout
  | other hc' hsame hpending hanswers hstatus =>
    rw [← hpending, ← hanswers] at hcase
    obtain rfl | rfl := hsame
    · exact ⟨_, hc', rfl, hcase⟩
    · refine ⟨_, hc', c.requestId_notify, ?_⟩
      obtain ⟨hpc, hforgotten⟩ | ⟨hout, herror⟩ := hcase
      · exact .inl ⟨notify_of_waits hpc, hforgotten⟩
      · rw [notify_of_out hout]
        exact .inr ⟨hout, herror⟩

/-- **Error answers are never understood.**  Every error answer to an accepted query is read as a
frame with its id and its status; and in every run in which that frame arrives for the pending
request of a call that waits, the call reports a timeout or the loss of the connection, if it
returns at all, whatever the status was. -/
theorem error_answer_never_understood (env : Env) (hempty : env.parse [] = none)
    {config : Config} {parse : List UInt8 → Option Json} {sent : List UInt8} {requestId : UInt64}
    {executionStatus : UInt8} (h : ErrorAnswer config parse sent requestId executionStatus) :
    (∀ rest, readMessage env.config (sent ++ rest)
      = (.answer (.ok ⟨requestId, executionStatus, []⟩), rest)) ∧
    ∀ (m : SafeMap String Unit ℕ) (stream : Writer) (actions : List RpcAction)
      (pre mid post : List (Transition RpcState RpcAction Unit))
      (u : Transition RpcState RpcAction Unit),
      transitions (step env) (fresh m stream) actions = pre ++ u :: (mid ++ post) →
      u.input = .receive ⟨requestId, executionStatus, []⟩ →
      requestId.toNat ∈ u.before.connection.pendingRequests →
      ∀ (i : ℕ) (c : ExecCall), u.before.calls[i]? = some c → c.requestId = requestId.toNat →
      c.pc.inWait = true →
      ∀ d : ExecCall,
        ((u :: mid).getLast (List.cons_ne_nil u mid)).after.calls[i]? = some d →
        d.pc = .returned →
        d.error = ExecutionError.timeout.report ∨
          d.error = ExecutionError.connectionLost.report := by
  refine ⟨fun rest => h.read rest, ?_⟩
  intro m stream actions pre mid post u hrun hinput hpending i c hc hid hwaits d hd hreturned
  have hstretch := stretch_spec hrun
  -- The frame is malformed: it erases the request.
  have hu := (hstretch u List.mem_cons_self).1
  rw [hinput] at hu
  obtain ⟨hzero, hprocessed⟩ := receive_spec hu
  have hafter : u.after
      = { u.before with connection := u.before.connection.forget requestId.toNat } := by
    rw [hprocessed]
    simp only [processIncomingAnswer, if_pos hpending, show cStr [] = [] from rfl, hempty]
  have hstart : Forgotten u.after i requestId.toNat := by
    rw [hafter]
    refine ⟨c, hc, hid, .inl ⟨.inr hwaits, ?_, ?_⟩⟩
    · simp
    · rw [Connection.answers_forget, if_pos rfl]
  have hmid : Forgotten ((u :: mid).getLast (List.cons_ne_nil u mid)).after i requestId.toNat := by
    refine stays_unless hrun (fun s => Forgotten s i requestId.toNat) hstart fun v hv hv' => ?_
    obtain ⟨hstep, hnumbered⟩ := hstretch v (List.mem_cons_of_mem u hv)
    exact hv'.kept hnumbered hzero hstep
  obtain ⟨c', hc', -, ⟨hpc, -⟩ | ⟨-, herror⟩⟩ := hmid
  · obtain rfl := Option.some.inj (hd.symm.trans hc')
    rw [hreturned] at hpc
    obtain hpc | hpc := hpc <;> cases hpc
  · obtain rfl := Option.some.inj (hd.symm.trans hc')
    exact herror

/-- A call that gets an error answer while it waits, up to its return. -/
def sampleRefused : List RpcAction :=
  sampleAsked ++ [.receive ⟨1, execStatusErrRemoteQueueOverflow, []⟩, .timeOut 0, .go 0, .go 0]

/-- An answer of two bytes where one byte is allowed. -/
theorem error_answer_never_understood_one :
    ∃ t : Transition RpcState RpcAction Unit,
      (transitions (step sampleEnv) (fresh sampleMap {}) sampleRefused)[11]? = some t ∧
      ∃ d : ExecCall, t.after.calls[0]? = some d ∧
        (d.error = ExecutionError.timeout.report ∨
          d.error = ExecutionError.connectionLost.report) := by
  have hrun : transitions (step sampleEnv) (fresh sampleMap {}) sampleRefused
      = List.take 8 (transitions (step sampleEnv) (fresh sampleMap {}) sampleRefused) ++
          _ :: ([_, _, _] ++ []) := (List.take_append_drop 8 _).symm
  have hlong : ErrorAnswer { maxMessageSize := 1 } (fun _ => none)
      (sendRPCAnswer { maxMessageSize := 1 } 1 [7, 7] execStatusErrRemoteQueueOverflow {}).2.sent 1
      execStatusErrRemoteQueueOverflow := .oversized _ (by decide) (by decide)
  have h := (error_answer_never_understood sampleEnv rfl hlong).2 sampleMap {} sampleRefused _ _ _ _
    hrun rfl (by decide) 0 _ rfl rfl rfl _ rfl rfl
  exact ⟨_, rfl, _, rfl, h⟩

/-- The queue of the peer is full: the call times out, and does not report the full queue. -/
theorem full_queue_times_out :
    ∃ t : Transition RpcState RpcAction Unit,
      (transitions (step sampleEnv) (fresh sampleMap {}) sampleRefused)[11]? = some t ∧
      ∃ d : ExecCall, t.after.calls[0]? = some d ∧ d.pc = .returned ∧
        d.error = ExecutionError.timeout.report ∧
        d.error ≠ answerReport execStatusErrRemoteQueueOverflow :=
  ⟨_, rfl, _, rfl, rfl, rfl, by decide⟩

end FastRPC3

end Mantids
