import Dispatcher.Lib.Tables
import Dispatcher.Model.Domain

namespace Dispatcher
open Tables

def MAX_RESULT_RETRIES : Nat := 5

/-- What `setTimeout` and `setInterval` return. -/
abbrev TimerId := Nat

/-- One entry of the worker's `inFlight` map, with its key. -/
structure InFlightJob where
  jobId : JobId
  token : Token
  result : Option Json := none
  retryCount : Nat := 0
  /-- Still the last handle after the timer has fired. -/
  retryTimer : Option TimerId := none
  heartbeatTimer : Option TimerId := none

/-- What an armed timer runs: `resultRetry` and `reconnect` once, `heartbeat` at
every interval. -/
inductive Callback where
  | heartbeat (jobId : JobId) (token : Token)
  | resultRetry (jobId : JobId) (token : Token)
  | reconnect
  deriving DecidableEq

structure Timer where
  id : TimerId
  callback : Callback
  deriving DecidableEq

/-- A `handleDispatch` suspended at `await executeJob(jobId, payload)`. -/
structure Execution where
  jobId : JobId
  token : Token
  payload : Json

/-- `executeJob`; how long it takes is up to `payload.durationMs`. -/
def executeJob (jobId : String) (payload : Json) (processedAt : String) : Json :=
  .obj [("jobId", .str jobId), ("processedAt", .str processedAt), ("echo", payload)]

structure WorkerService where
  workerId : WorkerId
  ws : Option SocketId
  /-- `this.ws?.readyState === WebSocket.OPEN` -/
  wsOpen : Bool
  running : Bool
  reconnectTimer : Option TimerId
  inFlight : Table InFlightJob JobId InFlightJob.jobId
  concurrencyLimit : Int
  timers : List Timer
  nextTimer : TimerId
  executions : List Execution

inductive WorkerEvent where
  | start (ws : SocketId)
  | stop
  | opened (ws : SocketId)
  | closed (ws : SocketId)
  | message (msg : CoordToWorkerMsg)
  /-- The `i`-th execution returns, or throws. -/
  | completed (i : Nat) (result : Json)
  | threw (i : Nat) (error : String)
  | fire (timer : TimerId)
  /-- The reconnect timer fires; `ws` is the new connection. -/
  | reconnect (timer : TimerId) (ws : SocketId)

namespace WorkerService

/-- A process that has not called `start` yet. -/
def fresh (workerId : WorkerId) (concurrencyLimit : Int) : WorkerService where
  workerId := workerId
  ws := none
  wsOpen := false
  running := false
  reconnectTimer := none
  inFlight := .empty
  concurrencyLimit := concurrencyLimit
  timers := []
  nextTimer := 0
  executions := []

def setTimer (w : WorkerService) (callback : Callback) : TimerId × WorkerService :=
  (w.nextTimer, { w with
    timers := w.timers ++ [⟨w.nextTimer, callback⟩]
    nextTimer := w.nextTimer + 1 })

/-- `if (timer) clearTimeout(timer)`, and the same for intervals. -/
def clearTimer (w : WorkerService) (timer : Option TimerId) : WorkerService :=
  { w with timers := w.timers.filter fun t => some t.id ≠ timer }

def modify (w : WorkerService) (jobId : JobId) (f : InFlightJob → InFlightJob)
    (hf : ∀ job, (f job).jobId = job.jobId) : WorkerService :=
  { w with inFlight := w.inFlight.update (fun job => job.jobId = jobId) f hf }

def remove (w : WorkerService) (jobId : JobId) : WorkerService :=
  { w with inFlight := w.inFlight.delete fun job => job.jobId = jobId }

def connect (w : WorkerService) (ws : SocketId) : WorkerService :=
  { w with ws := some ws, wsOpen := false }

def scheduleReconnect (w : WorkerService) : WorkerService :=
  if w.running then
    let (timer, w) := w.setTimer .reconnect
    { w with reconnectTimer := some timer }
  else w

def stop (w : WorkerService) : WorkerService :=
  let w := { w with running := false }.clearTimer w.reconnectTimer
  let w := w.inFlight.rows.foldl
    (fun w job => (w.clearTimer job.retryTimer).clearTimer job.heartbeatTimer) w
  { w with reconnectTimer := none, wsOpen := false }

def handleAck (w : WorkerService) (jobId : JobId) : WorkerService :=
  match w.inFlight.lookup jobId with
  | none => w
  | some job => ((w.clearTimer job.retryTimer).clearTimer job.heartbeatTimer).remove jobId

/-- The part of `handleDispatch` before its await. The second component of every
handler lists its calls of `send`. -/
def handleDispatch (w : WorkerService) (msg : JobDispatch) :
    WorkerService × List WorkerToCoordMsg :=
  if (w.inFlight.lookup msg.jobId).isSome then (w, [])
  else if w.concurrencyLimit ≤ w.inFlight.rows.length then
    (w, [.jobFailed ⟨msg.jobId, msg.token, "worker at capacity", true⟩])
  else
    let w := { w with inFlight := w.inFlight.insert { jobId := msg.jobId, token := msg.token } }
    let (timer, w) := w.setTimer (.heartbeat msg.jobId msg.token)
    let w := w.modify msg.jobId (fun job => { job with heartbeatTimer := some timer }) fun _ => rfl
    ({ w with executions := w.executions ++ [⟨msg.jobId, msg.token, msg.payload⟩] }, [])

def scheduleResultRetry (w : WorkerService) (jobId : JobId) (token : Token) : WorkerService :=
  match w.inFlight.lookup jobId with
  | none => w
  | some job =>
    if MAX_RESULT_RETRIES ≤ job.retryCount then (w.clearTimer job.heartbeatTimer).remove jobId
    else
      let (timer, w) := w.setTimer (.resultRetry jobId token)
      w.modify jobId (fun job => { job with retryTimer := some timer }) fun _ => rfl

/-- The rest of `handleDispatch` when `executeJob` has returned. -/
def completed (w : WorkerService) (run : Execution) (result : Json) :
    WorkerService × List WorkerToCoordMsg :=
  match w.inFlight.lookup run.jobId with
  | none => (w, [])
  | some current =>
    if current.token ≠ run.token then ((w.clearTimer current.heartbeatTimer).remove run.jobId, [])
    else
      let w := w.modify run.jobId (fun job => { job with result := some result }) fun _ => rfl
      (w.scheduleResultRetry run.jobId run.token, [.jobResult ⟨run.jobId, run.token, result⟩])

def threw (w : WorkerService) (run : Execution) (error : String) :
    WorkerService × List WorkerToCoordMsg :=
  match w.inFlight.lookup run.jobId with
  | none => (w, [])
  | some current =>
    if current.token ≠ run.token then (w, [])
    else ((w.clearTimer current.heartbeatTimer).remove run.jobId,
      [.jobFailed ⟨run.jobId, run.token, error, false⟩])

def onHeartbeatTimer (w : WorkerService) (jobId : JobId) (token : Token) :
    WorkerService × List WorkerToCoordMsg :=
  match w.inFlight.lookup jobId with
  | none => (w, [])
  | some cur => if cur.token ≠ token then (w, []) else (w, [.jobHeartbeat ⟨jobId, token⟩])

def onRetryTimer (w : WorkerService) (jobId : JobId) (token : Token) :
    WorkerService × List WorkerToCoordMsg :=
  match w.inFlight.lookup jobId with
  | none => (w, [])
  | some current =>
    match current.result with
    | none => (w, [])
    | some result =>
      if current.token ≠ token then (w, [])
      else
        let w := w.modify jobId (fun job => { job with retryCount := job.retryCount + 1 })
          fun _ => rfl
        (w.scheduleResultRetry jobId token, [.jobResult ⟨jobId, token, result⟩])

def route (w : WorkerService) : CoordToWorkerMsg → WorkerService × List WorkerToCoordMsg
  | .jobDispatch msg => w.handleDispatch msg
  | .jobAck jobId => (w.handleAck jobId, [])
  | .ping => (w, [.pong])
  | .setConcurrency limit => ({ w with concurrencyLimit := limit }, [])

def hello (w : WorkerService) : WorkerToCoordMsg := .workerHello w.workerId w.concurrencyLimit

/-- `none` where the event cannot happen. -/
def handle (w : WorkerService) : WorkerEvent → Option (WorkerService × List WorkerToCoordMsg)
  | .start ws => some ({ w with running := true }.connect ws, [])
  | .stop => some (w.stop, [])
  | .opened ws => some (if w.ws = some ws then { w with wsOpen := true } else w, [w.hello])
  | .closed ws =>
    some ((if w.ws = some ws then { w with wsOpen := false } else w).scheduleReconnect, [])
  | .message msg => some (w.route msg)
  | .completed i result => (w.executions[i]?).map fun run =>
      { w with executions := w.executions.eraseIdx i }.completed run result
  | .threw i error => (w.executions[i]?).map fun run =>
      { w with executions := w.executions.eraseIdx i }.threw run error
  | .fire timer =>
    match w.timers.find? fun t => t.id = timer with
    | some ⟨_, .heartbeat jobId token⟩ => some (w.onHeartbeatTimer jobId token)
    | some ⟨_, .resultRetry jobId token⟩ =>
      some ((w.clearTimer (some timer)).onRetryTimer jobId token)
    | some ⟨_, .reconnect⟩ | none => none
  | .reconnect timer ws =>
    if ⟨timer, .reconnect⟩ ∈ w.timers then some ((w.clearTimer (some timer)).connect ws, [])
    else none

/-- The result that the worker keeps for a job until it is acked. -/
def stored (w : WorkerService) (j : JobId) : Option Json :=
  (w.inFlight.lookup j).bind InFlightJob.result

end WorkerService

end Dispatcher
