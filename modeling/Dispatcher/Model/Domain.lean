import Mathlib.Data.Rat.Defs

namespace Dispatcher

/-- The JSON values that requests, payloads and results carry. -/
inductive Json where
  | null
  | bool (b : Bool)
  | num (n : Rat)
  | str (s : String)
  | arr (items : List Json)
  | obj (fields : List (String × Json))

/-- A UUID. -/
abbrev JobId := Nat
abbrev WorkerId := String
abbrev CoordinatorId := String
/-- One WebSocket connection, as `ws` in the hub. -/
abbrev SocketId := Nat
/-- A value of `fencing_seq`. -/
abbrev Token := Nat

inductive JobStatus where
  | pending | dispatched | succeeded | failed | cancelled
  deriving Repr, DecidableEq

/-- The enum's value, as the TEXT columns hold it. -/
def JobStatus.text : JobStatus → String
  | .pending => "pending"
  | .dispatched => "dispatched"
  | .succeeded => "succeeded"
  | .failed => "failed"
  | .cancelled => "cancelled"

/-- `TERMINAL_STATUSES`. -/
def JobStatus.terminal : JobStatus → Bool
  | .succeeded | .failed | .cancelled => true
  | .pending | .dispatched => false

inductive ResponseCode where
  | ok | internalError | validationError | notFound | jobCreated | jobDuplicate
  | jobNotFound | jobAlreadyTerminal | jobCancelled
  deriving Repr, DecidableEq

structure JobDispatch where
  jobId : JobId
  token : Token
  payload : Json
  timeoutMs : Int

structure JobResult where
  jobId : JobId
  token : Token
  result : Json

structure JobFailed where
  jobId : JobId
  token : Token
  error : String
  /-- A transient rejection; absent reads as `false`. -/
  temporary : Bool

structure JobHeartbeat where
  jobId : JobId
  token : Token

inductive CoordToWorkerMsg where
  | jobDispatch (msg : JobDispatch)
  | jobAck (jobId : JobId)
  | setConcurrency (limit : Int)
  | ping

inductive WorkerToCoordMsg where
  | workerHello (workerId : WorkerId) (concurrencyLimit : Int)
  | jobResult (msg : JobResult)
  | jobFailed (msg : JobFailed)
  | jobHeartbeat (msg : JobHeartbeat)
  | pong

/-- The job and the token that a message of a job names. -/
def WorkerToCoordMsg.claim : WorkerToCoordMsg → Option (JobId × Token)
  | .jobResult msg => some (msg.jobId, msg.token)
  | .jobFailed msg => some (msg.jobId, msg.token)
  | .jobHeartbeat msg => some (msg.jobId, msg.token)
  | .workerHello _ _ | .pong => none

end Dispatcher
