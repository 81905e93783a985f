import Dispatcher.Lib.Runs
import Dispatcher.Model.Transactions

namespace Dispatcher

inductive ResponseBody where
  | empty
  | submitted (job_id : Option JobId)
  | cancelled (jobId : JobId) (status : JobStatus)
  deriving DecidableEq

structure Response where
  status : Nat
  success : Bool
  message : String
  body : ResponseBody
  code : ResponseCode

/-- `makeResponse`; without a code it is OK or INTERNAL_ERROR by `success`. -/
def makeResponse (statusCode : Nat) (success : Bool) (message : String) (payload : ResponseBody)
    (code : Option ResponseCode) : Response :=
  ⟨statusCode, success, message, payload,
    code.getD (if success then .ok else .internalError)⟩

inductive Request where
  | post (idempotencyKey payload : Option Json)
  | delete (jobId : JobId)

structure Answer where
  request : Request
  response : Response

def validationError (message : String) : Response :=
  makeResponse 400 false message .empty (some .validationError)

/-- The checks of `POST /jobs`, in order. An absent field is `none`. -/
def validateSubmit (idempotencyKey payload : Option Json) : Except Response (String × Json) :=
  match idempotencyKey with
  | some (.str key) =>
    if key = "" then .error (validationError "idempotency_key is required")
    else if 128 < key.utf8ByteSize then
      .error (validationError "idempotency_key must be 128 bytes or fewer")
    else match payload with
      | some (.obj fields) => .ok (key, .obj fields)
      | _ => .error (validationError "payload must be a JSON object")
  | _ => .error (validationError "idempotency_key is required")

def jobCreated (jobId : JobId) : Response :=
  makeResponse 201 true "job created" (.submitted (some jobId)) (some .jobCreated)

def jobAlreadySubmitted (jobId : Option JobId) : Response :=
  makeResponse 200 true "job already submitted" (.submitted jobId) (some .jobDuplicate)

def jobCancelled (jobId : JobId) : Response :=
  makeResponse 200 true "job cancelled" (.cancelled jobId .cancelled) (some .jobCancelled)

def internalError (message : String) : Response :=
  makeResponse 500 false message .empty (some .internalError)

/-- A suspended handler: the await it stands at, with what it still needs. -/
inductive Task where
  | helloUpsert (ws : SocketId) (workerId : WorkerId)
  | resultLookup (ws : SocketId) (workerId : WorkerId) (msg : JobResult)
  | resultTx (ws : SocketId) (workerId : WorkerId) (msg : JobResult)
  /-- Both `alreadyDone` lookups of `onResult`. -/
  | resultReAck (ws : SocketId) (msg : JobResult)
  | failedTx (msg : JobFailed)
  | heartbeatUpdate (workerId : WorkerId) (msg : JobHeartbeat) (newExpiry : Int)
  | dispatchTx (workerId : WorkerId)
  /-- Between the dispatch commit and `sendJob`. -/
  | dispatchSend (workerId : WorkerId) (job : Dispatched)
  | reaperTx (now : Int)
  | submitLookup (key : String) (payload : Json)
  | submitTx (key : String) (payload : Json)
  /-- The lookup of the winner after a unique violation. -/
  | submitWinner (key : String) (payload : Json)
  | cancelLookup (jobId : JobId)
  | cancelTx (jobId : JobId)

/-- What a handler step leaves behind: the database, the awaits it goes on to,
the messages it sent, the answers it gave, a registration it made. -/
structure Outcome where
  db : Db
  next : List Task := []
  sent : List (SocketId × CoordToWorkerMsg) := []
  answers : List Answer := []
  registered : Option (WorkerId × SocketId) := none

/-- `sendMsg`: nothing is written to a socket that is not OPEN. -/
def sendMsg (ctx : Ctx) (ws : SocketId) (msg : CoordToWorkerMsg) :
    List (SocketId × CoordToWorkerMsg) :=
  if ctx.wsOpen then [(ws, msg)] else []

def submitRequest (key : String) (payload : Json) : Request := .post (some (.str key)) (some payload)

def jobByKey (db : Db) (key : String) : Option Job :=
  db.jobs.rows.find? fun r => r.idempotencyKey = key

/-- The awaited query or transaction runs and the handler goes on to its next await. -/
def Task.resume (ctx : Ctx) (wsOf : WorkerId → Option SocketId) (db : Db) : Task → Outcome
  | .helloUpsert ws workerId => { db, registered := some (workerId, ws) }
  | .resultLookup ws workerId msg =>
    match leaseOfWorker db msg.jobId workerId with
    | some lease =>
      if lease.token = msg.token then { db, next := [.resultTx ws workerId msg] }
      else { db, next := [.resultReAck ws msg] }
    | none => { db, next := [.resultReAck ws msg] }
  | .resultTx ws workerId msg =>
    let (accepted, db) := Dispatcher.onResultTx ctx workerId msg db
    if accepted then
      if ctx.dropAck then { db } else { db, sent := sendMsg ctx ws (.jobAck msg.jobId) }
    else { db, next := [.resultReAck ws msg] }
  | .resultReAck ws msg =>
    if alreadyDone db msg.jobId then { db, sent := sendMsg ctx ws (.jobAck msg.jobId) } else { db }
  | .failedTx msg => { db := onFailedTx ctx msg db }
  | .heartbeatUpdate workerId msg newExpiry => { db := onHeartbeatUpdate workerId msg newExpiry db }
  | .dispatchTx workerId =>
    match tryDispatchOneTx ctx workerId db with
    | .ok (some job, db) => { db, next := [.dispatchSend workerId job] }
    | .ok (none, db) => { db }
    | .error _ => { db }
  | .dispatchSend workerId job =>
    match wsOf workerId with
    | some ws =>
      { db, sent := sendMsg ctx ws
          (.jobDispatch ⟨job.jobId, job.token, job.payload, DISPATCH_LEASE_TTL_MS⟩) }
    | none => { db }
  | .reaperTx now => { db := Dispatcher.reaperTx ctx now db }
  | .submitLookup key payload =>
    match jobByKey db key with
    | some job =>
      { db, answers := [⟨submitRequest key payload, jobAlreadySubmitted (some job.jobId)⟩] }
    | none => { db, next := [.submitTx key payload] }
  | .submitTx key payload =>
    match Dispatcher.submitTx ctx key payload db with
    | .ok (jobId, db) => { db, answers := [⟨submitRequest key payload, jobCreated jobId⟩] }
    | .error .uniqueViolation => { db, next := [.submitWinner key payload] }
    | .error .foreignKeyViolation =>
      { db, answers := [⟨submitRequest key payload, internalError "foreign key violation"⟩] }
  | .submitWinner key payload =>
    { db, answers := [⟨submitRequest key payload,
        jobAlreadySubmitted ((jobByKey db key).map Job.jobId)⟩] }
  | .cancelLookup jobId =>
    match db.jobs.lookup jobId with
    | none =>
      { db, answers := [⟨.delete jobId, makeResponse 404 false "job not found" .empty none⟩] }
    | some job =>
      if job.status = .pending then { db, next := [.cancelTx jobId] }
      else { db, answers := [⟨.delete jobId, makeResponse 409 false
        s!"cannot cancel job in status {job.status.text}" .empty none⟩] }
  | .cancelTx jobId =>
    { db := Dispatcher.cancelTx ctx jobId db, answers := [⟨.delete jobId, jobCancelled jobId⟩] }

/-- The awaited query or transaction fails. A repository lookup then yields
`data: null`, which the callers read as "no row"; a transaction throws. -/
def Task.fail (db : Db) (error : String) : Task → Outcome
  | .helloUpsert ws workerId => { db, registered := some (workerId, ws) }
  | .resultLookup ws _ msg => { db, next := [.resultReAck ws msg] }
  | .submitLookup key payload => { db, next := [.submitTx key payload] }
  | .submitTx key payload => { db, answers := [⟨submitRequest key payload, internalError error⟩] }
  | .submitWinner key payload =>
    { db, answers := [⟨submitRequest key payload, jobAlreadySubmitted none⟩] }
  | .cancelLookup jobId =>
    { db, answers := [⟨.delete jobId, makeResponse 404 false "job not found" .empty none⟩] }
  | .cancelTx jobId => { db, answers := [⟨.delete jobId, internalError error⟩] }
  | .resultTx .. | .resultReAck .. | .failedTx .. | .heartbeatUpdate .. | .dispatchTx ..
  | .dispatchSend .. | .reaperTx .. => { db }

/-- The part of a message handler before its first await. `state` is the worker
the socket is registered for. -/
def onMessage (ctx : Ctx) (state : Option WorkerId) (ws : SocketId) : WorkerToCoordMsg → List Task
  | .workerHello workerId _ => [.helloUpsert ws workerId]
  | .jobResult msg => state.toList.map fun workerId => .resultLookup ws workerId msg
  | .jobFailed msg => [.failedTx msg]
  | .jobHeartbeat msg =>
    state.toList.map fun workerId => .heartbeatUpdate workerId msg (heartbeatExpiry ctx)
  | .pong => []

/-- One entry of a coordinator's `workers` map. -/
structure Registration where
  coordinatorId : CoordinatorId
  workerId : WorkerId
  ws : SocketId

/-- All coordinators over one database. `wire` holds every message a worker has
sent, whatever it names: any of them may arrive late, again and again, or never. -/
structure Cluster where
  db : Db
  tasks : List (CoordinatorId × Task)
  registry : List Registration
  wire : List (SocketId × WorkerToCoordMsg)
  sent : List (SocketId × CoordToWorkerMsg)
  answers : List Answer

inductive Action where
  | post (c : CoordinatorId) (idempotencyKey payload : Option Json)
  | delete (c : CoordinatorId) (jobId : JobId)
  | workerSend (ws : SocketId) (msg : WorkerToCoordMsg)
  /-- The `k`-th message of the wire reaches coordinator `c`. -/
  | receive (c : CoordinatorId) (k : Nat) (ctx : Ctx)
  | deregister (c : CoordinatorId) (workerId : WorkerId) (ws : SocketId)
  | dispatchTick (c : CoordinatorId) (workerId : WorkerId)
  | reaperTick (c : CoordinatorId) (ctx : Ctx)
  /-- The `i`-th suspended handler runs to its next await. -/
  | resume (i : Nat) (ctx : Ctx)
  | fail (i : Nat) (error : String)
  | crash (c : CoordinatorId)
  /-- `nextval` calls of transactions that rolled back. -/
  | skipTokens (n : Nat)

namespace Cluster

def init : Cluster := ⟨.migrated, [], [], [], [], []⟩

def stateByWs (s : Cluster) (c : CoordinatorId) (ws : SocketId) : Option WorkerId :=
  (s.registry.find? fun r => r.coordinatorId = c && r.ws = ws).map Registration.workerId

def wsOf (s : Cluster) (c : CoordinatorId) (workerId : WorkerId) : Option SocketId :=
  (s.registry.find? fun r => r.coordinatorId = c && r.workerId = workerId).map Registration.ws

def register (registry : List Registration) (c : CoordinatorId) (workerId : WorkerId)
    (ws : SocketId) : List Registration :=
  registry.filter (fun r => !(r.coordinatorId = c && r.workerId = workerId)) ++ [⟨c, workerId, ws⟩]

def spawn (s : Cluster) (c : CoordinatorId) (next : List Task) : Cluster :=
  { s with tasks := s.tasks ++ next.map fun t => (c, t) }

def finish (s : Cluster) (i : Nat) (c : CoordinatorId) (o : Outcome) : Cluster :=
  { db := o.db
    tasks := s.tasks.eraseIdx i ++ o.next.map fun t => (c, t)
    registry := match o.registered with
      | some (workerId, ws) => register s.registry c workerId ws
      | none => s.registry
    wire := s.wire
    sent := s.sent ++ o.sent
    answers := s.answers ++ o.answers }

def step : Runs.Step Cluster Action := fun s a =>
  match a with
  | .post c idempotencyKey payload =>
    match validateSubmit idempotencyKey payload with
    | .ok (key, payload) => some (s.spawn c [.submitLookup key payload])
    | .error response =>
      some { s with answers := s.answers ++ [⟨.post idempotencyKey payload, response⟩] }
  | .delete c jobId => some (s.spawn c [.cancelLookup jobId])
  | .workerSend ws msg => some { s with wire := s.wire ++ [(ws, msg)] }
  | .receive c k ctx =>
    match s.wire[k]? with
    | some (ws, msg) => some (s.spawn c (onMessage ctx (s.stateByWs c ws) ws msg))
    | none => none
  | .deregister c workerId ws =>
    some { s with registry := s.registry.filter fun r =>
      !(r.coordinatorId = c && r.workerId = workerId && r.ws = ws) }
  | .dispatchTick c workerId => some (s.spawn c [.dispatchTx workerId])
  | .reaperTick c ctx => some (s.spawn c [.reaperTx (ctx.nowMs + ctx.skewMs)])
  | .resume i ctx =>
    match s.tasks[i]? with
    | some (c, t) =>
      some (s.finish i c (t.resume { ctx with coordinatorId := c } (s.wsOf c) s.db))
    | none => none
  | .fail i error =>
    match s.tasks[i]? with
    | some (c, t) => some (s.finish i c (t.fail s.db error))
    | none => none
  | .crash c =>
    some { s with
      tasks := s.tasks.filter fun p => p.1 ≠ c
      registry := s.registry.filter fun r => r.coordinatorId ≠ c }
  | .skipTokens n => some { s with db := { s.db with fencingSeq := s.db.fencingSeq + n } }

end Cluster

end Dispatcher
