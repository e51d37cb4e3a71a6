/-
# Calls over a FastRPC3 connection

`RemoteMethods::executeTask` runs on any number of threads over one connection, beside the
thread that receives its frames (`handleConnection`).  A call opens the connection in the map,
takes a request id, registers it, writes its query under the socket mutex, and waits on the
condition variable that all calls share until its answer is there.

* `Connection`, `ExecCall`, `RpcState` — the shared state and the state of each call;
* `go`, `timeOut` — what a call does next, one critical section at a time;
* `processIncomingAnswer` — what the receiving thread does with an answer;
* `step` — one step of any thread.

A wait is left by `go` (a notification, or no reason at all) or by `timeOut`.  A critical
section of `answersMutex` is one step.  Request ids are not reused: a run in which the 64-bit
counter would wrap stops there.
-/
import Mantids.FastRpcTask
import Mantids.SafeMap
import Mantids.Lib.Run

namespace Mantids

namespace FastRPC3

open SocketStream SocketStream.Writer

/-! ## What a call reports -/

/-- `eTaskExecutionErrors`. -/
inductive ExecutionError where
  | success
  | payloadTooLarge
  | peerNotFound
  | dataTransmissionFailure
  | timeout
  | remoteQueueOverflow
  | methodNotFound
  | connectionLost
  | unknown
deriving DecidableEq

namespace ExecutionError

def code : ExecutionError → ℤ
  | success => 0
  | payloadTooLarge => 1
  | peerNotFound => 2
  | dataTransmissionFailure => 3
  | timeout => 4
  | remoteQueueOverflow => 5
  | methodNotFound => 6
  | connectionLost => 7
  | unknown => 99

def message : ExecutionError → String
  | success => "Execution OK."
  | payloadTooLarge => "Payload exceed the Maximum Message Size."
  | peerNotFound => "Abort after remote peer not found/connected."
  | dataTransmissionFailure => "Connection Failed."
  | timeout => "Remote Execution Timed Out: No Answer Received."
  | remoteQueueOverflow => "Remote Execution Failed: Full Queue."
  | methodNotFound => "Remote Execution Failed: Method Not Found."
  | connectionLost => "Connection is terminated: No Answer Received."
  | unknown => "Unknown Error."

end ExecutionError

/-- The members of `*error` that a call has written. -/
structure ErrorReport where
  succeed : Option Bool := none
  errorId : Option ℤ := none
  errorMessage : Option String := none
deriving DecidableEq

def ExecutionError.report (e : ExecutionError) : ErrorReport where
  succeed := some (e == .success)
  errorId := some e.code
  errorMessage := some e.message

/-- The report of an answer with an execution status. -/
def answerReport (executionStatus : UInt8) : ErrorReport :=
  if executionStatus = execStatusSuccess then ExecutionError.success.report
  else if executionStatus = execStatusErrRemoteQueueOverflow then
    ExecutionError.remoteQueueOverflow.report
  else if executionStatus = execStatusErrMethodNotFound then ExecutionError.methodNotFound.report
  else { succeed := some false }

/-! ## The shared state -/

/-- Who has the socket mutex: a call, or a thread that sends an answer or closes. -/
inductive SocketHolder where
  | call (i : ℕ)
  | other
deriving DecidableEq

/-- `FastRPC3::Connection`. -/
structure Connection where
  requestIdCounter : ℕ := 1
  pendingRequests : Finset ℕ := ∅
  answers : ℕ → Option Json := fun _ => none
  executionStatus : ℕ → Option UInt8 := fun _ => none
  terminated : Bool := false
  socketMutex : Option SocketHolder := none
  stream : Writer := {}

namespace Connection

/-- An answer is stored under a request id. -/
def store (k : Connection) (requestId : ℕ) (executionStatus : UInt8) (answer : Json) : Connection :=
  { k with
    executionStatus := Function.update k.executionStatus requestId (some executionStatus)
    answers := Function.update k.answers requestId (some answer) }

/-- A request id is erased everywhere. -/
def forget (k : Connection) (requestId : ℕ) : Connection :=
  { k with
    answers := Function.update k.answers requestId none
    executionStatus := Function.update k.executionStatus requestId none
    pendingRequests := k.pendingRequests.erase requestId }

variable (k : Connection) (requestId : ℕ) (executionStatus : UInt8) (answer : Json)

@[simp] theorem requestIdCounter_forget :
    (k.forget requestId).requestIdCounter = k.requestIdCounter := rfl

@[simp] theorem pendingRequests_forget :
    (k.forget requestId).pendingRequests = k.pendingRequests.erase requestId := rfl

@[simp] theorem socketMutex_forget : (k.forget requestId).socketMutex = k.socketMutex := rfl

theorem answers_store (id : ℕ) : (k.store requestId executionStatus answer).answers id
    = if id = requestId then some answer else k.answers id := by
  simp [store, Function.update_apply]

theorem executionStatus_store (id : ℕ) :
    (k.store requestId executionStatus answer).executionStatus id
      = if id = requestId then some executionStatus else k.executionStatus id := by
  simp [store, Function.update_apply]

theorem answers_forget (id : ℕ) :
    (k.forget requestId).answers id = if id = requestId then none else k.answers id := by
  simp [forget, Function.update_apply]

theorem executionStatus_forget (id : ℕ) : (k.forget requestId).executionStatus id
    = if id = requestId then none else k.executionStatus id := by
  simp [forget, Function.update_apply]

end Connection

/-- The arguments of `executeTask`, with the text of the payload. -/
structure CallArgs where
  methodName : List UInt8
  output : List UInt8
  retryIfDisconnected : Bool := true
  passSessionCommands : Bool := false
  extraJWTTokenAuth : List UInt8 := []

/-- Where a call is in `executeTask`. -/
inductive Pc where
  /-- In the loop around `openElement`, after so many tries. -/
  | opening (tries : ℕ)
  | opened
  | numbered
  | registered
  /-- It has the socket mutex and has not written yet. -/
  | sending
  | sent
  /-- At the top of the loop of the wait. -/
  | beforeWait
  | waiting (notified : Bool)
  /-- Out of the loop of the wait. -/
  | left
  | cleaned
  | returned
deriving DecidableEq

/-- A call of `executeTask`, with the count of its own opens and releases. -/
structure ExecCall where
  args : CallArgs
  pc : Pc
  /-- 0 until the call takes its id. -/
  requestId : ℕ := 0
  r : Json := .null
  error : ErrorReport := {}
  opens : ℕ := 0
  releases : ℕ := 0

/-- Where the receiving thread is in `handleConnection`. -/
inductive Handler where
  | running
  | terminated
  | notified
  | destroying
  | destroyed
deriving DecidableEq

/-- A connection with its calls. -/
structure RpcState where
  /-- A reader is a call that runs on a thread of its own, or the one whose transmission failed. -/
  connectionMapById : SafeMap String Unit ℕ
  connection : Connection := {}
  calls : List ExecCall := []
  handler : Handler := .running

/-- A connection as `handleConnection` makes it. -/
def fresh (connectionMapById : SafeMap String Unit ℕ) (stream : Writer) : RpcState :=
  { connectionMapById, connection := { stream } }

/-- What does not change while the connection lives. -/
structure Env where
  config : Config := {}
  connectionId : String
  /-- `JSONReader2::parse`. -/
  parse : List UInt8 → Option Json

/-- A waiting call gets a notification. -/
def ExecCall.notify (c : ExecCall) : ExecCall :=
  match c.pc with
  | .waiting _ => { c with pc := .waiting true }
  | _ => c

@[simp] theorem ExecCall.requestId_notify (c : ExecCall) : c.notify.requestId = c.requestId := by
  unfold notify
  split
  · rfl
  · rfl

@[simp] theorem ExecCall.error_notify (c : ExecCall) : c.notify.error = c.error := by
  unfold notify
  split
  · rfl
  · rfl

@[simp] theorem ExecCall.r_notify (c : ExecCall) : c.notify.r = c.r := by
  unfold notify
  split
  · rfl
  · rfl

/-- `answersCondition.notify_all()`. -/
def RpcState.notifyAll (s : RpcState) : RpcState := { s with calls := s.calls.map ExecCall.notify }

/-! ## The steps of a call -/

variable (env : Env)

/-- `SESSION.` -/
def sessionPrefix : List UInt8 := [83, 69, 83, 83, 73, 79, 78, 46]

/-- `executeTask` up to the opening of the connection. -/
def startCall (args : CallArgs) : ExecCall :=
  if ¬ args.passSessionCommands ∧ sessionPrefix <+: args.methodName then
    { args := args, pc := .returned }
  else if env.config.maxMessageSize.toNat < args.output.length then
    { args := args, pc := .returned, error := ExecutionError.payloadTooLarge.report }
  else { args := args, pc := .opening 0 }

/-- One turn of the loop around `openElement`. -/
def openConnection (m : SafeMap String Unit ℕ) (c : ExecCall) (tries : ℕ) :
    SafeMap String Unit ℕ × ExecCall :=
  match m.openElement env.connectionId with
  | (some _, m) => (m, { c with pc := .opened, opens := c.opens + 1 })
  | (none, m) =>
    if env.config.remoteExecutionDisconnectedTries.toNat ≤ tries + 1 ∨ ¬ c.args.retryIfDisconnected
    then (m, { c with pc := .returned, error := ExecutionError.peerNotFound.report })
    else (m, { c with pc := .opening (tries + 1) })

/-- `requestId = connection->requestIdCounter++`. -/
def takeRequestId (k : Connection) (c : ExecCall) : Option (Connection × ExecCall) :=
  if k.requestIdCounter + 1 < 2 ^ 64 then
    some ({ k with requestIdCounter := k.requestIdCounter + 1 },
      { c with pc := .numbered, requestId := k.requestIdCounter })
  else none

/-- `pendingRequests.insert(requestId)`. -/
def register (k : Connection) (c : ExecCall) : Connection × ExecCall :=
  ({ k with pendingRequests := insert c.requestId k.pendingRequests }, { c with pc := .registered })

/-- `socketMutex->lock()`. -/
def lockSocket (k : Connection) (i : ℕ) (c : ExecCall) : Option (Connection × ExecCall) :=
  if k.socketMutex = none then
    some ({ k with socketMutex := some (.call i) }, { c with pc := .sending })
  else none

/-- The transmission.  When it fails the call returns, and the socket mutex is not unlocked. -/
def transmit (k : Connection) (c : ExecCall) : Connection × ExecCall :=
  let (dataTransmitOK, stream) := writeQuery env.config (.ofNat c.requestId) c.args.methodName
    c.args.output c.args.extraJWTTokenAuth k.stream
  ({ k with stream },
    if dataTransmitOK then { c with pc := .sent }
    else { c with pc := .returned, error := ExecutionError.dataTransmissionFailure.report })

/-- `socketMutex->unlock()`. -/
def unlockSocket (k : Connection) (c : ExecCall) : Connection × ExecCall :=
  ({ k with socketMutex := none }, { c with pc := .beforeWait })

/-- The wait is left without a timeout: the answer, the end of the connection, or another turn. -/
def wake (k : Connection) (c : ExecCall) : ExecCall :=
  match k.answers c.requestId with
  | some answer =>
    { c with
      pc := .left
      r := answer
      error := answerReport ((k.executionStatus c.requestId).getD 0) }
  | none =>
    if k.terminated then { c with pc := .left, error := ExecutionError.connectionLost.report }
    else { c with pc := .beforeWait }

/-- The results of the call are erased. -/
def cleanUp (k : Connection) (c : ExecCall) : Connection × ExecCall :=
  (k.forget c.requestId, { c with pc := .cleaned })

/-- `releaseElement(connectionId)`, and the report of a call that has none. -/
def releaseConnection (m : SafeMap String Unit ℕ) (c : ExecCall) :
    SafeMap String Unit ℕ × ExecCall :=
  let (release, m) := m.releaseElement env.connectionId
  (m,
    { c with
      pc := .returned
      releases := c.releases + (if release = SafeMap.Release.released then 1 else 0)
      error := if c.error.succeed = none then ExecutionError.unknown.report else c.error })

/-- The next thing a call does to the map, the connection and itself. -/
def go (m : SafeMap String Unit ℕ) (k : Connection) (i : ℕ) (c : ExecCall) :
    Option (SafeMap String Unit ℕ × Connection × ExecCall) :=
  match c.pc with
  | .opening tries =>
    let (m, c) := openConnection env m c tries
    some (m, k, c)
  | .opened => (takeRequestId k c).map (m, ·)
  | .numbered => some (m, register k c)
  | .registered => (lockSocket k i c).map (m, ·)
  | .sending => some (m, transmit env k c)
  | .sent => some (m, unlockSocket k c)
  | .beforeWait => some (m, k, { c with pc := .waiting false })
  | .waiting _ => some (m, k, wake k c)
  | .left => some (m, cleanUp k c)
  | .cleaned =>
    let (m, c) := releaseConnection env m c
    some (m, k, c)
  | .returned => none

/-- The wait of a call times out. -/
def timeOut (c : ExecCall) : Option ExecCall :=
  match c.pc with
  | .waiting _ => some { c with pc := .left, error := ExecutionError.timeout.report }
  | _ => none

/-! ## The receiving thread and the others -/

/-- `processIncomingAnswer`, once the frame was read: under the lock, an answer for a pending
request is stored and everybody is notified, and a malformed one erases the request. -/
def processIncomingAnswer (s : RpcState) (f : AnswerFrame) : RpcState :=
  if f.requestId.toNat ∈ s.connection.pendingRequests then
    match env.parse (cStr f.payloadBytes) with
    | some answer =>
      { s with
        connection := s.connection.store f.requestId.toNat f.executionStatus answer }.notifyAll
    | none => { s with connection := s.connection.forget f.requestId.toNat }
  else s

/-- A step of one of the threads. -/
inductive RpcAction where
  /-- A new call of `executeTask`. -/
  | call (args : CallArgs)
  | go (i : ℕ)
  | timeOut (i : ℕ)
  /-- An answer was read; `processIncomingAnswer` refuses the request id 0. -/
  | receive (f : AnswerFrame)
  /-- Another thread takes the socket mutex. -/
  | lockSocket
  | unlockSocket
  /-- `connection->terminated = true`, after the loop of `handleConnection`. -/
  | terminate
  | notifyTerminated
  | destroy
  | finishDestroy

/-- A step.  The output is not used. -/
def step (s : RpcState) : RpcAction → Option (RpcState × Unit)
  | .call args => some ({ s with calls := s.calls ++ [startCall env args] }, ())
  | .go i =>
    match s.calls[i]? with
    | some c => (go env s.connectionMapById s.connection i c).map fun (m, k, c) =>
      ({ s with connectionMapById := m, connection := k, calls := s.calls.set i c }, ())
    | none => none
  | .timeOut i =>
    match s.calls[i]? with
    | some c => (timeOut c).map fun c => ({ s with calls := s.calls.set i c }, ())
    | none => none
  | .receive f =>
    if s.handler = .running ∧ f.requestId ≠ 0 then some (processIncomingAnswer env s f, ())
    else none
  | .lockSocket =>
    if s.connection.socketMutex = none then
      some ({ s with connection := { s.connection with socketMutex := some .other } }, ())
    else none
  | .unlockSocket =>
    if s.connection.socketMutex = some .other then
      some ({ s with connection := { s.connection with socketMutex := none } }, ())
    else none
  | .terminate =>
    if s.handler = .running then
      some ({ s with
        handler := .terminated
        connection := { s.connection with terminated := true } }, ())
    else none
  | .notifyTerminated =>
    if s.handler = .terminated then some ({ s.notifyAll with handler := .notified }, ()) else none
  | .destroy =>
    if s.handler = .notified then
      match s.connectionMapById.destroyElement env.connectionId with
      | (.waiting, connectionMapById) =>
        some ({ s with connectionMapById, handler := .destroying }, ())
      | (_, connectionMapById) => some ({ s with connectionMapById, handler := .destroyed }, ())
    else none
  | .finishDestroy =>
    if s.handler = .destroying then
      (s.connectionMapById.finishDestroy env.connectionId).map fun connectionMapById =>
        ({ s with connectionMapById, handler := .destroyed }, ())
    else none

end FastRPC3

end Mantids
