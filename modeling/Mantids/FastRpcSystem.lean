/-
# Two FastRPC3 peers

Both ends of a connection run the same code: calls of `executeTask` on any threads, the thread that
reads what the other end writes (`handleConnection`), and the threads of the pool that execute
tasks and answer them.  A message may arrive as a whole or be cut off by a timeout or the end of
the connection, and any write may fail.

* `Task`, `Peer`, `PeerEnv` — a task on its way, and one end of the connection;
* `login`, `logout`, `getSSOData`, `runTask` — what the functions of `LocalRPCTasks` compute;
* `Peer.receive` — one turn of the loop of `handleConnection`;
* `peerStep`, `System.step` — one step of any thread of either end.

The steps of the calls are those of `FastRPC3.step`.  A thread that answers takes the socket mutex,
writes its frame and unlocks the mutex.  `close` does the same with its byte; that it opens the
connection in the map is left out.
-/
import Mantids.FastRpcExits
import Mantids.FastRpcWire
import Mantids.MimeHeader

namespace Mantids

namespace FastRPC3

open SocketStream

/-! ## Tasks -/

/-- Where a task is on its thread. -/
inductive TaskStage where
  | queued
  /-- It has the session of the connection (`sessionHolder->getSharedPointer()`). -/
  | started (session : Option Session)
  /-- It is about to answer. -/
  | answering (answer : List UInt8) (executionStatus : UInt8)
  /-- It has answered, and has released `doneSharedMutex`. -/
  | done (answer : List UInt8) (executionStatus : UInt8)

/-- A query that was read, from `pushTask` on. -/
structure Task where
  function : TaskFunction
  params : TaskParameters
  /-- The queue was full: the receiving thread answers. -/
  refused : Bool := false
  stage : TaskStage := .queued
  /-- What the task did. -/
  events : List TaskEvent := []

def Task.isDone (t : Task) : Bool :=
  match t.stage with
  | .done _ _ => true
  | _ => false

/-- Who has the socket mutex when no call has it. -/
inductive Sender where
  | task (j : ℕ)
  | closer
deriving DecidableEq

/-- One end of a connection. -/
structure Peer where
  rpc : RpcState
  /-- `ret` of `handleConnection`. -/
  ret : ℤ := HandlerReturn.continue.code
  /-- How many bytes of the other end were read. -/
  read : ℕ := 0
  tasks : List Task := []
  /-- The session in the `SessionPTR` of the connection. -/
  session : Option Session := none
  sender : Option Sender := none
  /-- The process has ended, or it has written behind a buffer and is not followed any further. -/
  ended : Bool := false

/-- What does not change at one end. -/
structure PeerEnv extends Env where
  methodsHandler : MethodsHandler := {}
  /-- `jwtValidator->verifyAndDecodeTokenPayload`. -/
  verifyAndDecodeTokenPayload : List UInt8 → Token
  loginURL : String := ""
  returnURI : String := ""
  ignoreSSLCertForSSO : Bool := false
  /-- `Json::Value::toStyledString`. -/
  toStyledString : Json → List UInt8

/-! ## The functions of `LocalRPCTasks` -/

/-- `LoginReason::eReasons`. -/
inductive LoginReason where
  | internalError
  | sessionDuplicate
  | tokenValidated
  | tokenFailed
deriving DecidableEq

namespace LoginReason

def code : LoginReason → ℕ
  | internalError => 0
  | sessionDuplicate => 1
  | tokenValidated => 2
  | tokenFailed => 3

def txt : LoginReason → String
  | internalError => "An internal error occurred. Please try again later."
  | sessionDuplicate =>
    "A duplicate session was detected. Ensure only one active session exists for each token."
  | tokenValidated => "The JWT token has been successfully validated."
  | tokenFailed =>
    "JWT token validation failed. Please check the token configuration and try again."

def toJsonResponse (r : LoginReason) : Json :=
  .object (Json.Members.set (Json.Members.set [] "val" (.int r.code)) "txt" (.string r.txt))

end LoginReason

/-- What the body of a task leaves. -/
structure Ran where
  response : Json
  executionStatus : UInt8
  /-- The session of the connection afterwards. -/
  session : Option Session
  events : List TaskEvent := []

variable (env : PeerEnv)

/-- The token of a login: `JSON_ASSTRING(payload, "jwtToken", "")`. -/
def jwtToken (payload : Json) : String :=
  match payload with
  | .object members => (Json.Members.get members "jwtToken").asStringD ""
  | _ => ""

/-- `login`: `session` is what the task saw of the connection's session at its start, and `current`
is what `SessionPTR::create` finds there. -/
def login (session current : Option Session) (now : ℤ) (payload : Json) :
    LoginReason × Option Session :=
  match session with
  | some _ => (.sessionDuplicate, current)
  | none =>
    let token := env.verifyAndDecodeTokenPayload (bytesOf (jwtToken payload))
    if token.isValid now then
      match current with
      | none => (.tokenValidated, some (Session.ofToken token now))
      | some _ => (.internalError, current)
    else (.tokenFailed, current)

/-- `logout`: the answer of `SessionPTR::destroy`. -/
def logout (current : Option Session) : Json := .bool current.isSome

def getSSOData : Json :=
  .object <| Json.Members.set
    (Json.Members.set (Json.Members.set [] "loginURL" (.string env.loginURL)) "returnURI"
      (.string env.returnURI))
    "ignoreSSLCertForSSO" (.bool env.ignoreSSLCertForSSO)

/-- What a task has answered. -/
def TaskEvent.answer? : TaskEvent → Option (Json.Members × UInt8)
  | answered fullResponse executionStatus => some (fullResponse, executionStatus)
  | _ => none

/-- What `executeLocalTask` reads besides its parameters. -/
def PeerEnv.taskEnv (session : Option Session) (now : ℤ) : TaskEnv where
  methodsHandler := env.methodsHandler
  verifyAndDecodeTokenPayload := env.verifyAndDecodeTokenPayload
  session := session
  now := now

/-- The body of a task; none when it ends the process. -/
def runTask (session current : Option Session) (now : ℤ) (t : Task) : Option Ran :=
  match t.function with
  | .login =>
    let (reason, session) := login env session current now t.params.payload
    some
      { response := reason.toJsonResponse
        executionStatus := execStatusSuccess
        session := session }
  | .logout =>
    some { response := logout current, executionStatus := execStatusSuccess, session := none }
  | .getSSOData =>
    some { response := getSSOData env, executionStatus := execStatusSuccess, session := current }
  | .executeLocalTask =>
    let events := executeLocalTask (env.taskEnv session now) t.params
    (events.findSome? TaskEvent.answer?).map fun (fullResponse, executionStatus) =>
      { response := .object fullResponse
        executionStatus := executionStatus
        session := current
        events := events }

/-! ## The receiving thread -/

/-- The task of a query. -/
def taskOf (q : ExecutionRequest) (payload : Json) (pushed : Bool) : Task :=
  let params : TaskParameters := ⟨q.requestId, latin1 q.methodName, payload, q.extraAuthToken⟩
  if pushed then { function := taskFunction params.methodName, params }
  else
    { function := taskFunction params.methodName
      params := params
      refused := true
      stage := .answering [] execStatusErrRemoteQueueOverflow }

/-- The task of a query is what `processIncomingExecutionRequest` makes of it, and a refused one has
the answer that it sends. -/
theorem processIncomingExecutionRequest_eq {config : Config} {parse : List UInt8 → Option Json}
    {s rest : List UInt8} {q : ExecutionRequest} {payload : Json} (pushed : Bool) (w : Writer)
    (hread : readExecutionRequest config s = (.ok q, rest))
    (hparse : parse (cStr q.payloadBytes) = some payload) :
    processIncomingExecutionRequest config parse (fun _ _ => pushed) s w
      = if pushed then
          ⟨some .continue, some ((taskOf q payload true).function, (taskOf q payload true).params),
            rest, w⟩
        else
          ⟨some .continue, none, rest,
            (sendRPCAnswer config (taskOf q payload false).params.requestId []
              execStatusErrRemoteQueueOverflow w).2⟩ := by
  simp only [processIncomingExecutionRequest, hread, hparse]
  cases pushed
  · rfl
  · rfl

namespace Peer

/-- A query was read; `pushed` is the answer of the thread pool. -/
def takeQuery (p : Peer) (q : ExecutionRequest) (pushed : Bool) : Peer :=
  match env.parse (cStr q.payloadBytes) with
  | none => { p with ret := HandlerReturn.failedParsingPayload.code }
  | some payload => { p with tasks := p.tasks ++ [taskOf q payload pushed] }

/-- One turn of the loop of `handleConnection`, when so many bytes arrive before the connection ends
or the read times out.  The thread is not in the loop while it answers a query that the pool has
refused. -/
def receive (incoming : List UInt8) (p : Peer) (arrived : ℕ) (pushed : Bool) : Option Peer :=
  if p.ret = HandlerReturn.continue.code ∧ p.rpc.handler = .running ∧
      ∀ t ∈ p.tasks, t.refused = true → t.isDone = true then
    let unread := (incoming.drop p.read).take arrived
    let (message, rest) := readMessage env.config unread
    let read := p.read + (unread.length - rest.length)
    match message with
    | .answer (.ok f) => some { p with read, rpc := processIncomingAnswer env.toEnv p.rpc f }
    | .answer (.error ret) => some { p with read, ret }
    | .query (.ok q) => some ({ p with read }.takeQuery env q pushed)
    | .query (.error ret) => some { p with read, ret := ret.code }
    | .ended ret => some { p with read, ret := ret.code }
    | .answer .outOfBounds => some { p with ended := true }
    | .query .outOfBounds => some { p with ended := true }
  else none

/-! ## The threads of the pool -/

/-- A thread takes a task from the queue. -/
def start (p : Peer) (j : ℕ) : Option Peer :=
  match p.tasks[j]? with
  | some t =>
    match t.stage with
    | .queued => some { p with tasks := p.tasks.set j { t with stage := .started p.session } }
    | _ => none
  | none => none

/-- The body of a task. -/
def execute (p : Peer) (j : ℕ) (now : ℤ) : Option Peer :=
  match p.tasks[j]? with
  | some t =>
    match t.stage with
    | .started session =>
      match runTask env session p.session now t with
      | some ran =>
        some
          { p with
            session := ran.session
            tasks := p.tasks.set j
              { t with
                stage := .answering (env.toStyledString ran.response) ran.executionStatus
                events := ran.events } }
      | none => some { p with ended := true }
    | _ => none
  | none => none

/-- A thread takes the socket mutex. -/
def lock (p : Peer) (sender : Sender) : Option Peer :=
  if p.rpc.connection.socketMutex = none then
    some
      { p with
        rpc.connection.socketMutex := some .other
        sender := some sender }
  else none

/-- A thread that has the socket mutex has written, and unlocks it. -/
def unlock (p : Peer) (stream : Writer) : Peer :=
  { p with
    rpc.connection.stream := stream
    rpc.connection.socketMutex := none
    sender := none }

/-- The answer of a task, `sendRPCAnswer`. -/
def send (p : Peer) (j : ℕ) : Option Peer :=
  if p.sender = some (.task j) then
    match p.tasks[j]? with
    | some t =>
      match t.stage with
      | .answering answer executionStatus =>
        some
          { p.unlock (sendRPCAnswer env.config t.params.requestId answer executionStatus
              p.rpc.connection.stream).2 with
            tasks := p.tasks.set j { t with stage := .done answer executionStatus } }
      | _ => none
    | none => none
  else none

/-- `close` writes its byte. -/
def sendClose (p : Peer) : Option Peer :=
  if p.sender = some .closer then some (p.unlock (p.rpc.connection.stream.writeU 1 0).2) else none

/-- The task is about to answer. -/
def isAnswering (p : Peer) (j : ℕ) : Bool :=
  match p.tasks[j]? with
  | some t =>
    match t.stage with
    | .answering _ _ => true
    | _ => false
  | none => false

/-- The steps of `FastRPC3.step` that no other action stands for.  `handleConnection` leaves its
loop when `ret` says so, and waits for the tasks. -/
def isOwn (p : Peer) : RpcAction → Bool
  | .receive _ | .lockSocket | .unlockSocket => false
  | .terminate => p.ret ≠ HandlerReturn.continue.code ∧ p.tasks.all Task.isDone
  | _ => true

end Peer

/-! ## The steps of the system -/

/-- A step of one of the threads of a peer. -/
inductive PeerAction where
  | rpc (a : RpcAction)
  | receive (arrived : ℕ) (pushed : Bool)
  | start (j : ℕ)
  | execute (j : ℕ) (now : ℤ)
  | lock (j : ℕ)
  | send (j : ℕ)
  | lockClose
  | sendClose

/-- A step of a peer, while the other end has written `incoming`. -/
def peerStep (incoming : List UInt8) (p : Peer) (a : PeerAction) : Option Peer :=
  if p.ended then none else
  match a with
  | .rpc a =>
    if p.isOwn a then (step env.toEnv p.rpc a).map fun (rpc, _) => { p with rpc } else none
  | .receive arrived pushed => p.receive env incoming arrived pushed
  | .start j => p.start j
  | .execute j now => p.execute env j now
  | .lock j => if p.isAnswering j then p.lock (.task j) else none
  | .send j => p.send env j
  | .lockClose => p.lock .closer
  | .sendClose => p.sendClose

/-- The ends of a connection. -/
inductive Side where
  | client
  | server
deriving DecidableEq

def Side.other : Side → Side
  | client => server
  | server => client

@[simp] theorem Side.other_other (side : Side) : side.other.other = side := by
  cases side <;> rfl

theorem Side.other_ne (side : Side) : side.other ≠ side := by
  cases side <;> decide

theorem Side.eq_or_eq_other (side side' : Side) : side' = side ∨ side' = side.other := by
  cases side <;> cases side' <;> simp [Side.other]

abbrev System := Side → Peer

/-- What has been written towards a peer. -/
def System.incoming (s : System) (side : Side) : List UInt8 :=
  (s side.other).rpc.connection.stream.sent

/-- A step of one of the peers.  The output is not used. -/
def System.step (envs : Side → PeerEnv) (s : System) (a : Side × PeerAction) :
    Option (System × Unit) :=
  (peerStep (envs a.1) (s.incoming a.1) (s a.1) a.2).map fun p => (Function.update s a.1 p, ())

/-- A connection as `handleConnection` makes it at both ends; `fails` says which writes fail. -/
def System.fresh (maps : Side → SafeMap String Unit ℕ) (fails : Side → ℕ → Option ℕ) : System :=
  fun side => { rpc := FastRPC3.fresh (maps side) { fails := fails side } }

end FastRPC3

end Mantids
