/-
# The tasks behind the queries of FastRPC3

The receiving thread turns a query into a task for the thread pool
(`FastRPC3::processIncomingExecutionRequest`), and answers it at once when the queue is full.
`LocalRPCTasks::executeLocalTask` finds the session that the method runs under, checks what
the method requires, calls it and answers.

* `processIncomingExecutionRequest` — from the bytes of a query to a task or an answer;
* `processExtraToken` — the session of the task, from the connection and the extra token;
* `executeLocalTask` — the task, as the list of what it does;
* `localTask_safe_iff` — when the task is authorised and total.

A string of the source is a list of bytes, and `latin1` is the text with these bytes as
characters.
-/
import Mantids.FastRpcFrame
import Mantids.MethodsHandler

namespace Mantids

namespace FastRPC3

open SocketStream

/-! ## From a query to a task -/

/-- A `std::string` as a text of one character a byte. -/
def latin1 (s : List UInt8) : String := String.ofList (s.map fun b => Char.ofNat b.toNat)

/-- The functions that can run a task. -/
inductive TaskFunction where
  | executeLocalTask
  | login
  | logout
  | getSSOData
deriving DecidableEq

/-- The choice of the function by the name of the method. -/
def taskFunction (methodName : String) : TaskFunction :=
  if methodName = "SESSION.LOGIN" then .login
  else if methodName = "SESSION.LOGOUT" then .logout
  else if methodName = "SESSION.GETSSODATA" then .getSSOData
  else .executeLocalTask

/-- The fields of `TaskParameters` that come from the query. -/
structure TaskParameters where
  requestId : UInt64
  methodName : String
  payload : Json
  extraTokenAuth : Option (List UInt8)

def execStatusErrGeneric : UInt8 := 1

def execStatusSuccess : UInt8 := 2

def execStatusErrRemoteQueueOverflow : UInt8 := 3

def execStatusErrMethodNotFound : UInt8 := 4

/-- What became of a query: the return value, the task that was queued, what arrives behind
the query, and the connection. -/
structure Processed where
  /-- There is none when the reading went out of bounds. -/
  ret : Option HandlerReturn
  queued : Option (TaskFunction × TaskParameters)
  rest : List UInt8
  socket : Writer

/-- `processIncomingExecutionRequest`; `pushTask` is the answer of the thread pool. -/
def processIncomingExecutionRequest (config : Config) (parse : List UInt8 → Option Json)
    (pushTask : TaskFunction → TaskParameters → Bool) (s : List UInt8) (w : Writer) : Processed :=
  match readExecutionRequest config s with
  | (.error ret, s) => ⟨some ret, none, s, w⟩
  | (.outOfBounds, s) => ⟨none, none, s, w⟩
  | (.ok q, s) =>
    match parse (cStr q.payloadBytes) with
    | none => ⟨some .failedParsingPayload, none, s, w⟩
    | some payload =>
      let params : TaskParameters := ⟨q.requestId, latin1 q.methodName, payload, q.extraAuthToken⟩
      let currentTask := taskFunction params.methodName
      if pushTask currentTask params then ⟨some .continue, some (currentTask, params), s, w⟩
      else
        ⟨some .continue, none, s,
          (sendRPCAnswer config params.requestId [] execStatusErrRemoteQueueOverflow w).2⟩

/-! ## The local execution -/

/-- `eTokenValidationFailedErrors`, as far as the task reports them. -/
inductive TokenValidationError where
  | extraTokenValidation
  | extraTokenImpersonation
  | extraTokenNotRequired
  | tokenRevoked
deriving DecidableEq

/-- `eExecuteLocalTaskRetCodes`. -/
inductive LocalTaskRetCode where
  | success
  | tokenFailed
  | invalidImpersonator
  | reqSession
  | methodNotImplemented
  | notAuthorized
  | internalError
deriving DecidableEq

def LocalTaskRetCode.code : LocalTaskRetCode → ℕ
  | success => 0
  | tokenFailed => 1
  | invalidImpersonator => 2
  | reqSession => 3
  | methodNotImplemented => 404
  | notAuthorized => 403
  | internalError => 500

/-- What the task does, in order: the callbacks it calls, the method, the answer and the
release of `doneSharedMutex`. -/
inductive TaskEvent where
  | tokenValidationFailure (err : TokenValidationError)
  | sessionMissing
  | executionStart
  | invoked (session : Option Session)
  | executionSuccess (payloadOut : Json)
  | executionNotFound
  | notAuthorized (reasons : Json.Members)
  /-- `sendRPCAnswer`. -/
  | answered (fullResponse : Json.Members) (executionStatus : UInt8)
  /-- `doneSharedMutex->unlockShared()`. -/
  | unlocked
  /-- A member function is called on a null session. -/
  | nullDereference

/-- What the task reads besides its parameters. -/
structure TaskEnv where
  methodsHandler : MethodsHandler
  /-- `jwtValidator->verifyAndDecodeTokenPayload`. -/
  verifyAndDecodeTokenPayload : List UInt8 → Token
  /-- `sessionHolder->getSharedPointer()`: the session of the connection. -/
  session : Option Session
  /-- The clock. -/
  now : ℤ

/-- `Session::isSessionRevoked`. -/
def isSessionRevoked (_ : Session) : Bool := false

/-- The session of the task so far, and whether that failed. -/
structure TaskSession where
  session : Option Session
  sessionFailed : Bool := false
  statusCode : ℕ := LocalTaskRetCode.success.code
  events : List TaskEvent := []

variable (env : TaskEnv) (p : TaskParameters)

/-- The part that processes the extra token; none if it dereferences a null session. -/
def processExtraToken : Option TaskSession :=
  match p.extraTokenAuth with
  | none => some { session := env.session }
  | some extraTokenAuth =>
    let extraJWT := env.verifyAndDecodeTokenPayload (cStr extraTokenAuth)
    if extraJWT.isValid env.now then
      if extraJWT.getImpersonator = "" then
        match env.session with
        | none => some { session := some (Session.ofToken extraJWT env.now) }
        | some session =>
          some
            { session := some session
              sessionFailed := true
              statusCode := LocalTaskRetCode.tokenFailed.code
              events := [.tokenValidationFailure .extraTokenNotRequired] }
      else
        match env.session with
        -- `session->getUser()`
        | none => none
        | some session =>
          if session.user = extraJWT.getImpersonator ∧ extraJWT.getDomain = session.domain then
            some { session := some (Session.ofToken extraJWT env.now) }
          else
            some
              { session := some session
                sessionFailed := true
                statusCode := LocalTaskRetCode.invalidImpersonator.code
                events := [.tokenValidationFailure .extraTokenImpersonation] }
    else
      some
        { session := env.session
          sessionFailed := true
          statusCode := LocalTaskRetCode.tokenFailed.code
          events := [.tokenValidationFailure .extraTokenValidation] }

/-- A revoked session is taken away. -/
def invalidateRevoked (t : TaskSession) : TaskSession :=
  match t.sessionFailed, t.session with
  | false, some session =>
    if isSessionRevoked session then
      { session := none
        sessionFailed := true
        statusCode := LocalTaskRetCode.tokenFailed.code
        events := t.events ++ [.tokenValidationFailure .tokenRevoked] }
    else t
  | _, _ => t

/-- What the execution of the method leaves: `fullResponse` without its payload,
`responsePayload`, `functionFound`, and what was done. -/
structure Executed where
  fullResponse : Json.Members
  responsePayload : Json := .null
  functionFound : Bool := false
  events : List TaskEvent

def withStatusCode (fullResponse : Json.Members) (statusCode : ℕ) : Json.Members :=
  fullResponse.set "statusCode" (.uint statusCode)

/-- The execution of a method whose requirements are met; none if it dereferences a null
session. -/
def invokeMethod (session : Option Session) (fullResponse : Json.Members) : Option Executed :=
  let session := session.map (·.updateLastActivity env.now)
  match (env.methodsHandler.invoke session p.methodName p.payload env.now).1 with
  | .success payloadOut =>
    some
      { fullResponse := withStatusCode fullResponse 200
        responsePayload := payloadOut
        functionFound := true
        events := [.executionStart, .invoked session, .executionSuccess payloadOut] }
  | .methodNotFound =>
    some
      { fullResponse := withStatusCode fullResponse LocalTaskRetCode.methodNotImplemented.code
        events := [.executionStart, .invoked session, .executionNotFound] }
  | .nullDereference => none

/-- The check of the requirements, and the execution. -/
def runMethod (t : TaskSession) (fullResponse : Json.Members) : Option Executed :=
  if ¬ env.methodsHandler.doesMethodRequireActiveSession p.methodName ∨ t.session.isSome then
    if t.sessionFailed then some { fullResponse, events := [] }
    else
      match env.methodsHandler.validateMethodRequirements t.session p.methodName [] with
      | (.ok, _) => invokeMethod env p t.session fullResponse
      | (.notAuthorized, reasons) =>
        some
          { fullResponse := withStatusCode
              (fullResponse.set "auth" (.object [("reasons", .object reasons)]))
              LocalTaskRetCode.notAuthorized.code
            events := [.notAuthorized reasons] }
      | (.methodNotFound, _) =>
        some
          { fullResponse := withStatusCode fullResponse LocalTaskRetCode.methodNotImplemented.code
            events := [.executionNotFound] }
  else
    some
      { fullResponse := withStatusCode fullResponse LocalTaskRetCode.reqSession.code
        events := [.sessionMissing] }

/-- `executeLocalTask`.  A null dereference ends the process. -/
def executeLocalTask : List TaskEvent :=
  match processExtraToken env p with
  | none => [.nullDereference]
  | some t =>
    let t := invalidateRevoked t
    match runMethod env p t (withStatusCode [] t.statusCode) with
    | none => t.events ++ [.nullDereference]
    | some e =>
      t.events ++ e.events ++
        [.answered (e.fullResponse.set "payload" e.responsePayload)
          (if e.functionFound then execStatusSuccess else execStatusErrMethodNotFound), .unlocked]

/-! ## When the execution is safe -/

variable {env p}

/-- The session a task may run under: the one of the connection without an extra token, the one
of an ordinary token on a connection without a session, and the one of an impersonation token
whose impersonator is the user of the connection's session, in its domain. -/
inductive EffectiveSession (env : TaskEnv) (p : TaskParameters) : Option Session → Prop where
  | noToken (h : p.extraTokenAuth = none) : EffectiveSession env p env.session
  | ordinary {extraTokenAuth : List UInt8} (h : p.extraTokenAuth = some extraTokenAuth)
      (hvalid : (env.verifyAndDecodeTokenPayload (cStr extraTokenAuth)).isValid env.now = true)
      (himp : (env.verifyAndDecodeTokenPayload (cStr extraTokenAuth)).getImpersonator = "")
      (hsession : env.session = none) :
      EffectiveSession env p
        (some (Session.ofToken (env.verifyAndDecodeTokenPayload (cStr extraTokenAuth)) env.now))
  | impersonation {extraTokenAuth : List UInt8} {session : Session}
      (h : p.extraTokenAuth = some extraTokenAuth)
      (hvalid : (env.verifyAndDecodeTokenPayload (cStr extraTokenAuth)).isValid env.now = true)
      (hsession : env.session = some session)
      (huser : session.user
        = (env.verifyAndDecodeTokenPayload (cStr extraTokenAuth)).getImpersonator)
      (hdomain : (env.verifyAndDecodeTokenPayload (cStr extraTokenAuth)).getDomain
        = session.domain) :
      EffectiveSession env p
        (some (Session.ofToken (env.verifyAndDecodeTokenPayload (cStr extraTokenAuth)) env.now))

/-- A valid impersonation token on a connection without a session. -/
def ImpersonatesNobody (env : TaskEnv) (p : TaskParameters) : Prop :=
  ∃ extraTokenAuth, p.extraTokenAuth = some extraTokenAuth ∧
    (env.verifyAndDecodeTokenPayload (cStr extraTokenAuth)).isValid env.now = true ∧
    (env.verifyAndDecodeTokenPayload (cStr extraTokenAuth)).getImpersonator ≠ "" ∧
    env.session = none

/-- The events that belong to the end of a task. -/
def TaskEvent.final : TaskEvent → Bool
  | answered _ _ | unlocked | nullDereference => true
  | _ => false

/-- The two outcomes of the token part that do not dereference a null session. -/
structure TokenProcessed (env : TaskEnv) (p : TaskParameters) (t : TaskSession) : Prop where
  effective : t.sessionFailed = false → EffectiveSession env p t.session
  events : ∀ e ∈ t.events, ∃ err, e = .tokenValidationFailure err

theorem processExtraToken_spec (env : TaskEnv) (p : TaskParameters) :
    (ImpersonatesNobody env p ∧ processExtraToken env p = none) ∨
      (¬ ImpersonatesNobody env p ∧
        ∃ t, processExtraToken env p = some t ∧ TokenProcessed env p t) := by
  unfold processExtraToken
  split
  · rename_i hnone
    right
    refine ⟨?_, _, rfl, fun _ => .noToken hnone, ?_⟩
    · rintro ⟨tok, htok, -⟩
      rw [hnone] at htok
      cases htok
    · intro e he
      cases he
  · rename_i tok htok
    dsimp only
    split_ifs with hvalid himp
    · -- An ordinary token.
      right
      refine ⟨?_, ?_⟩
      · rintro ⟨tok', htok', -, hne, -⟩
        obtain rfl := Option.some.inj (htok.symm.trans htok')
        exact hne himp
      · split
        · rename_i hsession
          refine ⟨_, rfl, fun _ => .ordinary htok hvalid himp hsession, ?_⟩
          intro e he
          cases he
        · refine ⟨_, rfl, ?_, ?_⟩
          · intro hfailed
            cases hfailed
          · intro e he
            exact ⟨_, List.mem_singleton.mp he⟩
    · -- An impersonation token.
      split
      · rename_i hsession
        exact .inl ⟨⟨tok, htok, hvalid, himp, hsession⟩, rfl⟩
      · rename_i session hsession
        right
        refine ⟨?_, ?_⟩
        · rintro ⟨-, -, -, -, hnone⟩
          rw [hsession] at hnone
          cases hnone
        · split_ifs with hsame
          · refine ⟨_, rfl, fun _ => .impersonation htok hvalid hsession hsame.1 hsame.2, ?_⟩
            intro e he
            cases he
          · refine ⟨_, rfl, ?_, ?_⟩
            · intro hfailed
              cases hfailed
            · intro e he
              exact ⟨_, List.mem_singleton.mp he⟩
    · -- An invalid token.
      right
      refine ⟨?_, _, rfl, ?_, ?_⟩
      · rintro ⟨tok', htok', hvalid', -⟩
        obtain rfl := Option.some.inj (htok.symm.trans htok')
        exact hvalid hvalid'
      · intro hfailed
        cases hfailed
      · intro e he
        exact ⟨_, List.mem_singleton.mp he⟩

/-- No session is ever revoked. -/
theorem invalidateRevoked_eq (t : TaskSession) : invalidateRevoked t = t := by
  unfold invalidateRevoked
  split
  · rfl
  · rfl

/-- Without a session nothing is validated. -/
theorem isSome_of_validated {h : MethodsHandler} {session : Option Session} {methodName : String}
    {reasons : Json.Members}
    (hok : (h.validateMethodRequirements session methodName reasons).1 = .ok) :
    ∃ s, session = some s := by
  cases session with
  | some s => exact ⟨s, rfl⟩
  | none =>
    exfalso
    unfold MethodsHandler.validateMethodRequirements at hok
    split at hok
    · cases hok
    · split_ifs at hok
      cases hok

/-- What the execution does in between. -/
structure MethodRun (env : TaskEnv) (p : TaskParameters) (t : TaskSession) (e : Executed) :
    Prop where
  notFinal : ∀ ev ∈ e.events, ev.final = false
  invoked : ∀ s, .invoked s ∈ e.events → t.sessionFailed = false ∧
    s = t.session.map (·.updateLastActivity env.now) ∧
    (env.methodsHandler.validateMethodRequirements t.session p.methodName []).1 = .ok

theorem invokeMethod_spec {session : Session} (fullResponse : Json.Members) :
    ∃ e, invokeMethod env p (some session) fullResponse = some e ∧
      (∀ ev ∈ e.events, ev.final = false) ∧
      ∀ s, .invoked s ∈ e.events → s = some (session.updateLastActivity env.now) := by
  unfold invokeMethod
  simp only [Option.map_some]
  split
  · refine ⟨_, rfl, ?_, ?_⟩
    · simp [TaskEvent.final]
    · simp
  · refine ⟨_, rfl, ?_, ?_⟩
    · simp [TaskEvent.final]
    · simp
  · rename_i hnull
    exfalso
    unfold MethodsHandler.invoke at hnull
    split at hnull
    · cases hnull
    · dsimp only at hnull
      split_ifs at hnull

/-- The execution of a method never dereferences a null session: only a session passes the
validation. -/
theorem runMethod_spec (env : TaskEnv) (p : TaskParameters) (t : TaskSession)
    (fullResponse : Json.Members) :
    ∃ e, runMethod env p t fullResponse = some e ∧ MethodRun env p t e := by
  unfold runMethod
  split_ifs with hactive hfailed
  · refine ⟨_, rfl, ?_, ?_⟩
    · intro ev hev
      cases hev
    · intro s hs
      cases hs
  · split
    · rename_i reasons hvalid
      have hok : (env.methodsHandler.validateMethodRequirements t.session p.methodName []).1
          = .ok := by rw [hvalid]
      obtain ⟨session, hsession⟩ := isSome_of_validated hok
      obtain ⟨e, he, hfinal, hinvoked⟩ :=
        @invokeMethod_spec env p session fullResponse
      refine ⟨e, by rw [hsession]; exact he, hfinal, fun s hs => ⟨?_, ?_, hok⟩⟩
      · exact Bool.eq_false_iff.mpr hfailed
      · rw [hsession]
        exact hinvoked s hs
    · refine ⟨_, rfl, ?_, ?_⟩
      · simp [TaskEvent.final]
      · simp
    · refine ⟨_, rfl, ?_, ?_⟩
      · simp [TaskEvent.final]
      · simp
  · refine ⟨_, rfl, ?_, ?_⟩
    · simp [TaskEvent.final]
    · simp

/-- What the claim asks of the execution. -/
structure LocalTaskSafe (env : TaskEnv) (p : TaskParameters) : Prop where
  noNull : TaskEvent.nullDereference ∉ executeLocalTask env p
  /-- One answer, then one release of the mutex, and nothing else of the kind. -/
  finals : ∃ fullResponse executionStatus, (executeLocalTask env p).filter TaskEvent.final
    = [.answered fullResponse executionStatus, .unlocked]
  authorised : ∀ s, .invoked s ∈ executeLocalTask env p →
    ∃ session, EffectiveSession env p session ∧ s = session.map (·.updateLastActivity env.now) ∧
      (env.methodsHandler.validateMethodRequirements session p.methodName []).1 = .ok

/-- **Local execution.**  A task is authorised and total exactly when it is not a valid
impersonation token on a connection without a session. -/
theorem localTask_safe_iff (env : TaskEnv) (p : TaskParameters) :
    LocalTaskSafe env p ↔ ¬ ImpersonatesNobody env p := by
  obtain ⟨hnobody, hnone⟩ | ⟨hsomebody, t, ht, hspec⟩ := processExtraToken_spec env p
  · have hrun : executeLocalTask env p = [.nullDereference] := by
      unfold executeLocalTask
      rw [hnone]
    constructor
    · intro h
      exfalso
      apply h.noNull
      rw [hrun]
      exact List.mem_singleton.mpr rfl
    · intro h
      exact absurd hnobody h
  · obtain ⟨e, he, hrun⟩ := runMethod_spec env p t (withStatusCode [] t.statusCode)
    have htask : executeLocalTask env p = t.events ++ e.events ++
        [.answered (e.fullResponse.set "payload" e.responsePayload)
          (if e.functionFound then execStatusSuccess else execStatusErrMethodNotFound),
          .unlocked] := by
      unfold executeLocalTask
      rw [ht]
      dsimp only
      rw [invalidateRevoked_eq, he]
    -- Neither the token nor the method brings an event of the end.
    have hfinal : ∀ ev ∈ t.events ++ e.events, ev.final = false := by
      intro ev hev
      obtain hev | hev := List.mem_append.mp hev
      · obtain ⟨err, rfl⟩ := hspec.events ev hev
        rfl
      · exact hrun.notFinal ev hev
    refine ⟨fun _ => hsomebody, fun _ => ⟨?_, ?_, ?_⟩⟩
    · rw [htask]
      intro hmem
      obtain hmem | hmem := List.mem_append.mp hmem
      · have hfalse := hfinal _ hmem
        cases hfalse
      · simp at hmem
    · refine ⟨e.fullResponse.set "payload" e.responsePayload,
        if e.functionFound then execStatusSuccess else execStatusErrMethodNotFound, ?_⟩
      have hnil : (t.events ++ e.events).filter TaskEvent.final = [] :=
        List.filter_eq_nil_iff.mpr fun ev hev => by simp [hfinal ev hev]
      rw [htask, List.filter_append, hnil, List.nil_append]
      rfl
    · intro s hs
      rw [htask] at hs
      obtain hs | hs := List.mem_append.mp hs
      · obtain hs | hs := List.mem_append.mp hs
        · obtain ⟨err, herr⟩ := hspec.events _ hs
          cases herr
        · obtain ⟨hok, heq, hvalid⟩ := hrun.invoked s hs
          exact ⟨t.session, hspec.effective hok, heq, hvalid⟩
      · simp at hs

/-- A connection without a login, and a validator that takes the token of an impersonator. -/
def sampleTaskEnv : TaskEnv where
  methodsHandler := {}
  verifyAndDecodeTokenPayload := fun _ =>
    { claims := [("sub", .string "bob"), ("impersonator", .string "alice")]
      signatureVerified := true }
  session := none
  now := 0

/-- An impersonation token on a connection without a session: the task calls `getUser` on a null
session, and neither answers nor releases the mutex. -/
theorem impersonation_without_session :
    executeLocalTask sampleTaskEnv ⟨7, "status", .null, some [97]⟩ = [.nullDereference] ∧
      ¬ LocalTaskSafe sampleTaskEnv ⟨7, "status", .null, some [97]⟩ := by
  have hrun : executeLocalTask sampleTaskEnv ⟨7, "status", .null, some [97]⟩
      = [.nullDereference] := by rfl
  refine ⟨hrun, fun h => h.noNull ?_⟩
  rw [hrun]
  exact List.mem_singleton.mpr rfl

end FastRPC3

end Mantids
