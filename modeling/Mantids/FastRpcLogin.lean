/-
# Who a task runs for

A connection gets a session by `SESSION.LOGIN` with a token that verifies and is valid, and loses it
by `SESSION.LOGOUT`.  Logins, logouts and other tasks of one connection run on several threads, and
each reads the session at its start.  Whatever the order, a method is only called for a session that
a valid token of the other end stands for: the one of a login on this connection, or the one of a
token that came with the call.

* `LoggedIn` — a login that was read of the other end, with the session it makes;
* `Tasks` — how the answer of a task came about, and with which session;
* `session_from_login`, `answered_call_executed`, `method_called_for_valid_token` — the theorems
  about whole runs.
-/
import Mantids.FastRpcEndToEnd

namespace Mantids

namespace FastRPC3

open Run SocketStream

variable {penv : PeerEnv} {incoming : List UInt8} {p p' : Peer} {envs : Side → PeerEnv}
  {sys : System}

/-! ## Logins -/

/-- What the validator makes of the token of a login. -/
def PeerEnv.token (penv : PeerEnv) (payload : Json) : Token :=
  penv.verifyAndDecodeTokenPayload (bytesOf (jwtToken payload))

/-- A login was read of the other end whose token was valid, and this is its session. -/
def LoggedIn (penv : PeerEnv) (p : Peer) (session : Session) : Prop :=
  ∃ params ∈ p.tasks.map (·.params), params.methodName = "SESSION.LOGIN" ∧
    ∃ now, (penv.token params.payload).isValid now = true ∧
      session = Session.ofToken (penv.token params.payload) now

/-- The functions that can run a task are told apart by the name of the method. -/
theorem taskFunction_eq_login {methodName : String} (h : taskFunction methodName = .login) :
    methodName = "SESSION.LOGIN" := by
  unfold taskFunction at h
  split_ifs at h with hlogin
  exact hlogin

/-- A login makes a session only of a valid token, and only where there is none. -/
theorem login_session {session current : Option Session} {now : ℤ} {payload : Json} {x : Session}
    (h : (login penv session current now payload).2 = some x) :
    current = some x ∨
      ((penv.token payload).isValid now = true ∧ x = Session.ofToken (penv.token payload) now) := by
  unfold login at h
  cases session with
  | some _ => exact .inl h
  | none =>
    dsimp only at h
    split_ifs at h with hvalid
    · cases current with
      | none =>
        cases h
        exact .inr ⟨hvalid, rfl⟩
      | some y => exact .inl h
    · exact .inl h

/-- What a task leaves of the session of the connection. -/
theorem runTask_session {session current : Option Session} {now : ℤ} {t : Task} {ran : Ran}
    (h : runTask penv session current now t = some ran) {x : Session}
    (hx : ran.session = some x) :
    current = some x ∨ (t.function = .login ∧ (penv.token t.params.payload).isValid now = true ∧
      x = Session.ofToken (penv.token t.params.payload) now) := by
  unfold runTask at h
  split at h
  · rename_i hfunction
    cases h
    obtain hsame | ⟨hvalid, rfl⟩ := login_session hx
    · exact .inl hsame
    · exact .inr ⟨hfunction, hvalid, rfl⟩
  · cases h
    cases hx
  · cases h
    exact .inl hx
  · obtain ⟨answer, -, rfl⟩ := Option.map_eq_some_iff.mp h
    exact .inl hx

/-! ## The tasks of a peer -/

/-- The answer of a task, and what it did: the refusal of a full queue, or a run of its body with a
session that the connection had. -/
structure Computed (penv : PeerEnv) (p : Peer) (t : Task) (answer : List UInt8)
    (executionStatus : UInt8) : Prop where
  outcome : (t.refused = true ∧ answer = [] ∧
      executionStatus = execStatusErrRemoteQueueOverflow ∧ t.events = []) ∨
    ∃ (session current : Option Session) (now : ℤ) (ran : Ran),
      (∀ x, session = some x → LoggedIn penv p x) ∧
      runTask penv session current now t = some ran ∧
      answer = penv.toStyledString ran.response ∧ executionStatus = ran.executionStatus ∧
      t.events = ran.events

/-- How far a task is, and what that says of it. -/
structure TaskSound (penv : PeerEnv) (p : Peer) (t : Task) : Prop where
  function : t.function = taskFunction t.params.methodName
  queued : t.stage = .queued → t.events = []
  started : ∀ {session : Option Session}, t.stage = .started session →
    t.events = [] ∧ ∀ x, session = some x → LoggedIn penv p x
  answered : ∀ {answer : List UInt8} {executionStatus : UInt8},
    t.stage = .answering answer executionStatus ∨ t.stage = .done answer executionStatus →
    Computed penv p t answer executionStatus

/-- The session of a peer and its tasks. -/
structure Tasks (penv : PeerEnv) (p : Peer) : Prop where
  session : ∀ x, p.session = some x → LoggedIn penv p x
  sound : ∀ t ∈ p.tasks, TaskSound penv p t

/-- Tasks keep their parameters. -/
def Grows (p p' : Peer) : Prop :=
  ∀ params ∈ p.tasks.map (·.params), params ∈ p'.tasks.map (·.params)

theorem LoggedIn.mono (hg : Grows p p') {x : Session} (h : LoggedIn penv p x) :
    LoggedIn penv p' x := by
  obtain ⟨params, hmem, hrest⟩ := h
  exact ⟨params, hg params hmem, hrest⟩

theorem TaskSound.mono (hg : Grows p p') {t : Task} (h : TaskSound penv p t) :
    TaskSound penv p' t := by
  refine ⟨h.function, h.queued, fun hstage => ?_, fun hstage => ⟨?_⟩⟩
  · obtain ⟨hevents, hsession⟩ := h.started hstage
    exact ⟨hevents, fun x hx => (hsession x hx).mono hg⟩
  · obtain hrefused | ⟨session, current, now, ran, hsession, hrest⟩ := (h.answered hstage).outcome
    · exact .inl hrefused
    · exact .inr ⟨session, current, now, ran, fun x hx => (hsession x hx).mono hg, hrest⟩

theorem grows_of_params (h : p'.tasks.map (·.params) = p.tasks.map (·.params)) : Grows p p' := by
  intro params hmem
  rw [h]
  exact hmem

/-- One task changes, and the others stay sound. -/
theorem Tasks.set (h : Tasks penv p) {j : ℕ} {t t' : Task} (ht : p.tasks[j]? = some t)
    (htasks : p'.tasks = p.tasks.set j t') (hparams : t'.params = t.params)
    (hsession : ∀ x, p'.session = some x → LoggedIn penv p x) (hsound : TaskSound penv p t') :
    Tasks penv p' := by
  have hg : Grows p p' := grows_of_params (by rw [htasks, map_params_set ht hparams])
  refine ⟨fun x hx => (hsession x hx).mono hg, fun u hu => ?_⟩
  rw [htasks] at hu
  obtain hold | rfl := List.mem_or_eq_of_mem_set hu
  · exact (h.sound u hold).mono hg
  · exact hsound.mono hg

theorem Tasks.same (h : Tasks penv p) (htasks : p'.tasks = p.tasks)
    (hsession : p'.session = p.session) : Tasks penv p' := by
  have hg : Grows p p' := grows_of_params (by rw [htasks])
  refine ⟨fun x hx => (h.session x (hsession ▸ hx)).mono hg, fun t ht => ?_⟩
  rw [htasks] at ht
  exact (h.sound t ht).mono hg

/-- The task of a query is sound from the start. -/
theorem taskSound_taskOf (penv : PeerEnv) (p : Peer) (q : ExecutionRequest) (payload : Json)
    (pushed : Bool) : TaskSound penv p (taskOf q payload pushed) := by
  cases pushed with
  | true =>
    refine ⟨rfl, fun _ => rfl, nofun, ?_⟩
    rintro answer executionStatus (hstage | hstage)
    · cases hstage
    · cases hstage
  | false =>
    refine ⟨rfl, nofun, nofun, ?_⟩
    rintro answer executionStatus (hstage | hstage)
    · cases hstage
      exact ⟨.inl ⟨rfl, rfl, rfl, rfl⟩⟩
    · cases hstage

/-- **Sessions and tasks.**  Every step of a peer keeps where its session and the sessions of its
tasks come from. -/
theorem Tasks.step {a : PeerAction} (h : Tasks penv p) (hk : PeerKind penv incoming p a p') :
    Tasks penv p' := by
  cases hk with
  | @query arrived pushed q payload rest hret hread hparse =>
    have hg : Grows p { p with
        read := p.read + (((incoming.drop p.read).take arrived).length - rest.length)
        tasks := p.tasks ++ [taskOf q payload pushed] } := by
      intro params hmem
      rw [List.map_append]
      exact List.mem_append_left _ hmem
    refine ⟨fun x hx => (h.session x hx).mono hg, fun t ht => ?_⟩
    obtain hold | hnew := List.mem_append.mp ht
    · exact (h.sound t hold).mono hg
    · rw [List.mem_singleton.mp hnew]
      exact taskSound_taskOf penv _ q payload pushed
  | @started j t ht hstage =>
    have hsound := h.sound t (List.mem_of_getElem? ht)
    refine h.set ht rfl rfl h.session ⟨hsound.function, nofun, ?_, ?_⟩
    · intro session hsession
      cases hsession
      exact ⟨hsound.queued hstage, h.session⟩
    · rintro answer executionStatus (hstage' | hstage')
      · cases hstage'
      · cases hstage'
  | @executed j now t session ran ht hstage hran =>
    have hmem := List.mem_of_getElem? ht
    have hsound := h.sound t hmem
    obtain ⟨-, hsession⟩ := hsound.started hstage
    refine h.set ht rfl rfl ?_ ⟨hsound.function, nofun, nofun, ?_⟩
    · intro x hx
      obtain hsame | ⟨hfunction, hvalid, rfl⟩ := runTask_session hran hx
      · exact h.session x hsame
      · rw [hsound.function] at hfunction
        exact ⟨t.params, List.mem_map_of_mem hmem, taskFunction_eq_login hfunction, now, hvalid,
          rfl⟩
    · rintro answer executionStatus (hstage' | hstage')
      · cases hstage'
        exact ⟨.inr ⟨session, p.session, now, ran, hsession, hran, rfl, rfl, rfl⟩⟩
      · cases hstage'
  | @sent j t answer executionStatus hsender ht hstage =>
    have hsound := h.sound t (List.mem_of_getElem? ht)
    refine h.set ht rfl rfl h.session ⟨hsound.function, nofun, nofun, ?_⟩
    rintro answer' executionStatus' (hstage' | hstage')
    · cases hstage'
    · cases hstage'
      exact ⟨(hsound.answered (.inl hstage)).outcome⟩
  | _ => exact h.same rfl rfl

/-! ## Which session a method sees -/

/-- A method is only called for a session that its task may run under, and that meets the
requirements of the method. -/
theorem invoked_of_executeLocalTask {tenv : TaskEnv} {params : TaskParameters}
    {s : Option Session} (h : .invoked s ∈ executeLocalTask tenv params) :
    ∃ x, EffectiveSession tenv params (some x) ∧ s = some (x.updateLastActivity tenv.now) ∧
      (tenv.methodsHandler.validateMethodRequirements (some x) params.methodName []).1 = .ok := by
  obtain ⟨-, hnone⟩ | ⟨-, t, ht, hspec⟩ := processExtraToken_spec tenv params
  · unfold executeLocalTask at h
    rw [hnone] at h
    simp at h
  · obtain ⟨e, he, hrun⟩ := runMethod_spec tenv params t (withStatusCode [] t.statusCode)
    have hevents : .invoked s ∈ t.events ++ e.events := by
      unfold executeLocalTask at h
      rw [ht] at h
      dsimp only at h
      rw [invalidateRevoked_eq, he] at h
      simpa using h
    obtain htoken | hmethod := List.mem_append.mp hevents
    · obtain ⟨err, herr⟩ := hspec.events _ htoken
      cases herr
    · obtain ⟨hok, rfl, hvalid⟩ := hrun.invoked s hmethod
      obtain ⟨x, hx⟩ := isSome_of_validated hvalid
      rw [hx] at hvalid
      refine ⟨x, ?_, by rw [hx]; rfl, hvalid⟩
      rw [← hx]
      exact hspec.effective hok

/-- Only `executeLocalTask` calls methods. -/
theorem invoked_of_runTask {session current : Option Session} {now : ℤ} {t : Task} {ran : Ran}
    (h : runTask penv session current now t = some ran) {s : Option Session}
    (hs : .invoked s ∈ ran.events) :
    .invoked s ∈ executeLocalTask (penv.taskEnv session now) t.params := by
  unfold runTask at h
  split at h
  · cases h
    cases hs
  · cases h
    cases hs
  · cases h
    cases hs
  · obtain ⟨answer, -, rfl⟩ := Option.map_eq_some_iff.mp h
    exact hs

/-- What a task did it did with a session of the connection. -/
theorem TaskSound.invoked {t : Task} (h : TaskSound penv p t) {s : Option Session}
    (hs : .invoked s ∈ t.events) :
    ∃ (session : Option Session) (now : ℤ), (∀ y, session = some y → LoggedIn penv p y) ∧
      .invoked s ∈ executeLocalTask (penv.taskEnv session now) t.params := by
  have hnone : t.events ≠ [] := List.ne_nil_of_mem hs
  obtain ⟨answer, executionStatus, hanswered⟩ : ∃ answer executionStatus,
      t.stage = .answering answer executionStatus ∨ t.stage = .done answer executionStatus := by
    cases hstage : t.stage with
    | queued => exact absurd (h.queued hstage) hnone
    | started session => exact absurd (h.started hstage).1 hnone
    | answering answer executionStatus => exact ⟨answer, executionStatus, .inl rfl⟩
    | done answer executionStatus => exact ⟨answer, executionStatus, .inr rfl⟩
  obtain ⟨-, -, -, hevents⟩ | ⟨session, current, now, ran, hsession, hran, -, -, hevents⟩ :=
    (h.answered hanswered).outcome
  · exact absurd hevents hnone
  · rw [hevents] at hs
    exact ⟨session, now, hsession, invoked_of_runTask hran hs⟩

/-! ## Whole runs -/

/-- The other end has called `SESSION.LOGIN` with a token that was valid, and this is the session
that it got. -/
def LoginCall (envs : Side → PeerEnv) (sys : System) (side : Side) (session : Session) : Prop :=
  ∃ (i : ℕ) (c : ExecCall) (payload : Json) (now : ℤ),
    (sys side.other).rpc.calls[i]? = some c ∧ latin1 c.args.methodName = "SESSION.LOGIN" ∧
    (envs side).parse (cStr c.args.output) = some payload ∧
    ((envs side).token payload).isValid now = true ∧
    session = Session.ofToken ((envs side).token payload) now

theorem Connected.loginCall {frames : Side → List Frame} (h : Connected envs sys frames)
    {side : Side} {x : Session} (hx : LoggedIn (envs side) (sys side) x) :
    LoginCall envs sys side x := by
  obtain ⟨params, hmem, hlogin, now, hvalid, rfl⟩ := hx
  obtain ⟨t, ht, rfl⟩ := List.mem_map.mp hmem
  obtain ⟨i, c, hc, hexecuted⟩ := h.exists_call ht
  refine ⟨i, c, t.params.payload, now, hc, ?_, hexecuted.payload, hvalid, rfl⟩
  rw [← hexecuted.methodName]
  exact hlogin

theorem tasks_of_reach {maps : Side → SafeMap String Unit ℕ} {fails : Side → ℕ → Option ℕ}
    {actions : List (Side × PeerAction)}
    (hrun : reach (System.step envs) (System.fresh maps fails) actions = some sys) (side : Side) :
    Tasks (envs side) (sys side) := by
  apply reach_invariant (fun sys => ∀ side, Tasks (envs side) (sys side)) _ _ hrun
  · rintro sys ⟨side, a⟩ - sys' output h hs side'
    obtain ⟨p', hpeer, heq⟩ := Option.map_eq_some_iff.mp hs
    cases heq
    dsimp only at hpeer ⊢
    obtain rfl | rfl := side.eq_or_eq_other side'
    · rw [Function.update_self]
      exact (h side').step (peerStep_kind hpeer)
    · rw [Function.update_of_ne side.other_ne]
      exact h side.other
  · intro side
    exact ⟨fun x hx => absurd hx (Option.some_ne_none x).symm,
      fun t ht => absurd ht List.not_mem_nil⟩

/-- The session of a connection is that of a login of the other end. -/
theorem session_from_login {maps : Side → SafeMap String Unit ℕ} {fails : Side → ℕ → Option ℕ}
    (hfails : ∀ side, ShutsDown (fails side)) {actions : List (Side × PeerAction)}
    (hrun : reach (System.step envs) (System.fresh maps fails) actions = some sys) {side : Side}
    {x : Session} (hx : (sys side).session = some x) : LoginCall envs sys side x := by
  obtain ⟨frames, h⟩ := connected_of_reach hfails hrun
  exact h.loginCall ((tasks_of_reach hrun side).session x hx)

/-- Two peers whose reader knows a login by its first byte, and whose validator takes one token.
The server has one method, `m`, for sessions. -/
def sampleEnds (_ : Side) : PeerEnv where
  connectionId := "SERVER"
  parse := fun text => match text with
    | [] => none
    | 76 :: _ => some (.object [("jwtToken", .string "t")])
    | _ => some (.bool true)
  methodsHandler := MethodsHandler.build
    [{ methodName := "m", method := ⟨fun _ payload => payload⟩ }]
  verifyAndDecodeTokenPayload := fun token =>
    { claims := [("sub", .string "bob"), ("isAdmin", .bool true)]
      signatureVerified := decide (token = [116]) }
  toStyledString := fun _ => [123, 125]

/-- A call of the client up to its wait, its task at the server, and the answer. -/
def sampleCall (i : ℕ) (args : CallArgs) : List (Side × PeerAction) :=
  (.client, .rpc (.call args)) :: List.replicate 7 (.client, .rpc (.go i)) ++
    [(.server, .receive 100 true), (.server, .start i), (.server, .execute i 0),
      (.server, .lock i), (.server, .send i), (.client, .receive 100 true)] ++
    List.replicate 3 (.client, .rpc (.go i))

/-- A login, and a call of `m`. -/
def sampleSession : List (Side × PeerAction) :=
  sampleCall 0 { methodName := [83, 69, 83, 83, 73, 79, 78, 46, 76, 79, 71, 73, 78]
                 output := [76]
                 passSessionCommands := true } ++
    sampleCall 1 { methodName := [109], output := [123, 125] }

/-- **Remote calls.**  In every run of two peers, under any interleaving of their threads, any cut
of their streams and any failure of their writes: a call that reports an answer has exactly one
task at the other end.  The task was made from the arguments of the call, and the call reports the
status of what the task has answered, and what it reads of its text.  That answer is the refusal of
a full queue, or the task has run, under the session of a login of this end or under none. -/
theorem answered_call_executed (envs : Side → PeerEnv) (maps : Side → SafeMap String Unit ℕ)
    (fails : Side → ℕ → Option ℕ) (hfails : ∀ side, ShutsDown (fails side))
    (actions : List (Side × PeerAction)) (sys : System)
    (hrun : reach (System.step envs) (System.fresh maps fails) actions = some sys) (side : Side)
    (i : ℕ) (c : ExecCall) (hc : (sys side).rpc.calls[i]? = some c) (hanswer : IsAnswer c.error) :
    ∃ (j : ℕ) (t : Task) (answer : List UInt8) (executionStatus : UInt8),
      (sys side.other).tasks[j]? = some t ∧ ExecutedFor (envs side.other).parse c t ∧
      (∀ (k : ℕ) (u : Task), (sys side.other).tasks[k]? = some u →
        u.params.requestId.toNat = c.requestId → k = j) ∧
      t.stage = .done answer executionStatus ∧ c.error = answerReport executionStatus ∧
      (envs side).parse (cStr (sentText (envs side.other).config answer)) = some c.r ∧
      ((t.refused = true ∧ answer = [] ∧ executionStatus = execStatusErrRemoteQueueOverflow) ∨
        ∃ (session current : Option Session) (now : ℤ) (ran : Ran),
          (∀ x, session = some x → LoginCall envs sys side.other x) ∧
          runTask (envs side.other) session current now t = some ran ∧
          answer = (envs side.other).toStyledString ran.response ∧
          executionStatus = ran.executionStatus) := by
  obtain ⟨frames, h⟩ := connected_of_reach hfails hrun
  obtain ⟨j, t, answer, executionStatus, ht, hexecuted, honly, hdone, hreport, hparse⟩ :=
    h.executed hc hanswer
  refine ⟨j, t, answer, executionStatus, ht, hexecuted, honly, hdone, hreport, hparse, ?_⟩
  have hsound := (tasks_of_reach hrun side.other).sound t (List.mem_of_getElem? ht)
  obtain ⟨hrefused, hempty, hoverflow, -⟩ |
    ⟨session, current, now, ran, hsession, hran, htext, hstatus, -⟩ :=
    (hsound.answered (.inr hdone)).outcome
  · exact .inl ⟨hrefused, hempty, hoverflow⟩
  · exact .inr ⟨session, current, now, ran, fun x hx => h.loginCall (hsession x hx), hran, htext,
      hstatus⟩

/-- A call of a method after a login. -/
theorem answered_call_executed_two :
    ∃ sys, reach (System.step sampleEnds) (System.fresh (fun _ => sampleMap) fun _ _ => none)
        sampleSession = some sys ∧
      ∃ c, (sys .client).rpc.calls[1]? = some c ∧
      ∃ t ∈ (sys .server).tasks, ExecutedFor (sampleEnds .server).parse c t := by
  have hrun : reach (System.step sampleEnds) (System.fresh (fun _ => sampleMap) fun _ _ => none)
      sampleSession = some _ := rfl
  obtain ⟨j, t, -, -, ht, hexecuted, -⟩ := answered_call_executed sampleEnds _ _
    (fun _ _ _ _ h => absurd rfl h) _ _ hrun .client 1 _ rfl ⟨execStatusSuccess, rfl⟩
  exact ⟨_, hrun, _, rfl, t, List.mem_of_getElem? ht, hexecuted⟩

/-- **Whom a method is called for.**  In every run, a task that calls its method belongs to a call
of the other end, and it calls the method for a session that meets its requirements: the one of the
connection, which a login of the other end with a valid token has made, or the one of the valid
token that the call has passed, which names the user of the connection's session if it is for
impersonation. -/
theorem method_called_for_valid_token (envs : Side → PeerEnv) (maps : Side → SafeMap String Unit ℕ)
    (fails : Side → ℕ → Option ℕ) (hfails : ∀ side, ShutsDown (fails side))
    (actions : List (Side × PeerAction)) (sys : System)
    (hrun : reach (System.step envs) (System.fresh maps fails) actions = some sys) (side : Side)
    (t : Task) (ht : t ∈ (sys side).tasks) (s : Option Session) (hs : .invoked s ∈ t.events) :
    (∃ (i : ℕ) (c : ExecCall), (sys side.other).rpc.calls[i]? = some c ∧
      ExecutedFor (envs side).parse c t) ∧
    ∃ (session : Option Session) (now : ℤ) (x : Session),
      (∀ y, session = some y → LoginCall envs sys side y) ∧
      EffectiveSession ((envs side).taskEnv session now) t.params (some x) ∧
      s = some (x.updateLastActivity now) ∧
      ((envs side).methodsHandler.validateMethodRequirements (some x) t.params.methodName []).1
        = .ok := by
  obtain ⟨frames, h⟩ := connected_of_reach hfails hrun
  refine ⟨h.exists_call ht, ?_⟩
  obtain ⟨session, now, hsession, hinvoked⟩ :=
    ((tasks_of_reach hrun side).sound t ht).invoked hs
  obtain ⟨x, heffective, hx, hvalid⟩ := invoked_of_executeLocalTask hinvoked
  exact ⟨session, now, x, fun y hy => h.loginCall (hsession y hy), heffective, hx, hvalid⟩

/-- The method is called for the session of the login. -/
theorem method_called_for_valid_token_two :
    ∃ sys, reach (System.step sampleEnds) (System.fresh (fun _ => sampleMap) fun _ _ => none)
        sampleSession = some sys ∧
      ∃ t ∈ (sys .server).tasks, t.params.methodName = "m" ∧ ∃ session now x,
        EffectiveSession ((sampleEnds .server).taskEnv session now) t.params (some x) := by
  have hrun : reach (System.step sampleEnds) (System.fresh (fun _ => sampleMap) fun _ _ => none)
      sampleSession = some _ := rfl
  obtain ⟨-, session, now, x, -, heffective, -⟩ := method_called_for_valid_token sampleEnds _ _
    (fun _ _ _ _ h => absurd rfl h) _ _ hrun .server _
    (List.mem_cons_of_mem _ List.mem_cons_self) _ (List.mem_cons_of_mem _ List.mem_cons_self)
  exact ⟨_, hrun, _, List.mem_cons_of_mem _ List.mem_cons_self, rfl, session, now, x, heffective⟩

end FastRPC3

end Mantids
