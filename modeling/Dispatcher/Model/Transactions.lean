import Dispatcher.Model.Db

namespace Dispatcher

/-- What one step of a handler reads outside the database: the clocks, the chaos
state, its own identity, the rows other sessions hold locked, a fresh UUID. -/
structure Ctx where
  coordinatorId : CoordinatorId
  /-- The first `Date.now()` of the step. -/
  nowMs : Int
  /-- A later `Date.now()` of the same step. -/
  laterMs : Int
  /-- `ChaosService.getClockSkewMs()`. -/
  skewMs : Int
  /-- `now()` in Postgres. -/
  pgNowMs : Int
  /-- `(EXTRACT(EPOCH FROM clock_timestamp()) * 1000000)::bigint`. -/
  pgClockUs : Int
  locked : JobId → Bool
  freshId : JobId
  /-- `ChaosService.consumeDropAck()`. -/
  dropAck : Bool
  /-- The socket that the step writes to is OPEN. -/
  wsOpen : Bool

/-- One coordinator with every clock at `atMs`, no chaos and no rows locked. -/
def Ctx.quiet (coordinatorId : CoordinatorId) (atMs : Int) : Ctx :=
  { coordinatorId, nowMs := atMs, laterMs := atMs, skewMs := 0, pgNowMs := atMs,
    pgClockUs := atMs * 1000, locked := fun _ => false, freshId := atMs.toNat, dropAck := false,
    wsOpen := true }

def DISPATCH_LEASE_TTL_MS : Int := 60000
def HEARTBEAT_LEASE_TTL_MS : Int := 15000

/-- The first row of a scan in `CreatedAt` order. -/
def oldest : List Job → Option Job
  | [] => none
  | r :: rest => match oldest rest with
    | none => some r
    | some q => if r.createdAt ≤ q.createdAt then some r else some q

structure Dispatched where
  jobId : JobId
  token : Token
  payload : Json

/-- The transaction of `DispatchService.tryDispatchOne`. -/
def tryDispatchOneTx (ctx : Ctx) (workerId : WorkerId) (db : Db) :
    Except PgError (Option Dispatched × Db) :=
  match oldest (db.jobs.rows.filter fun r => r.status = .pending && !ctx.locked r.jobId) with
  | none => .ok (none, db)
  | some job =>
    let token := db.fencingSeq + 1
    let db := { db with fencingSeq := token }
    match db.insertLease { jobId := job.jobId, workerId, token,
                           expiresAt := ctx.nowMs + DISPATCH_LEASE_TTL_MS + ctx.skewMs } with
    | .error e => .error e
    | .ok db =>
      let (_, db) := db.updateJobs (fun r => r.jobId = job.jobId)
        { status := .dispatched, result := none, updatedAt := ctx.pgNowMs }
      let db := db.insertLeaseHistory
        { jobId := job.jobId, workerId, fence := token, issuedAtMs := ctx.pgClockUs,
          terminatedAtMs := none }
      let db := db.insertJobTransitions
        [{ jobId := job.jobId, fromStatus := some .pending, toStatus := .dispatched,
           atMs := ctx.laterMs, coordinatorId := ctx.coordinatorId }]
      .ok (some ⟨job.jobId, token, job.payload⟩, db)

/-- `leaseRepo.get({ JobID, WorkerID })` in `onResult`. -/
def leaseOfWorker (db : Db) (jobId : JobId) (workerId : WorkerId) : Option Lease :=
  db.leases.rows.find? fun l => l.jobId = jobId && l.workerId = workerId

/-- `jobRepo.get({ JobID, Status: SUCCEEDED })` in `onResult`. -/
def alreadyDone (db : Db) (jobId : JobId) : Bool :=
  db.jobs.rows.any fun r => r.jobId = jobId && r.status = .succeeded

/-- The transaction of `WorkerHubService.onResult`. The two early returns commit
what was written before them. -/
def onResultTx (ctx : Ctx) (workerId : WorkerId) (msg : JobResult) (db : Db) : Bool × Db :=
  let (affected, db) := db.deleteLeases fun l =>
    l.jobId = msg.jobId && l.workerId = workerId && l.token = msg.token
  if affected = 0 then (false, db) else
  let (affected, db) := db.updateJobs (fun r => r.jobId = msg.jobId && r.status = .dispatched)
    { status := .succeeded, result := some msg.result, updatedAt := ctx.nowMs }
  if affected = 0 then (false, db) else
  let db := db.insertCommitAttempt
    { jobId := msg.jobId, accepted := true, fence := msg.token, workerId, atMs := ctx.laterMs }
  let db := db.terminateHistory (· = msg.jobId) ctx.laterMs
  let db := db.insertJobTransitions
    [{ jobId := msg.jobId, fromStatus := some .dispatched, toStatus := .succeeded,
       atMs := ctx.laterMs, coordinatorId := ctx.coordinatorId }]
  (true, db)

/-- The two transactions of `WorkerHubService.onFailed`. Neither looks at the
token, the worker or the affected rows. -/
def onFailedTx (ctx : Ctx) (msg : JobFailed) (db : Db) : Db :=
  if msg.temporary then
    let (_, db) := db.deleteLeases fun l => l.jobId = msg.jobId
    let (_, db) := db.updateJobs (fun r => r.jobId = msg.jobId && r.status = .dispatched)
      { status := .pending, result := none, updatedAt := ctx.pgNowMs }
    db.terminateHistory (· = msg.jobId) ctx.laterMs
  else
    let (_, db) := db.deleteLeases fun l => l.jobId = msg.jobId
    let (_, db) := db.updateJobs (fun r => r.jobId = msg.jobId && r.status = .dispatched)
      { status := .failed, result := none, updatedAt := ctx.pgNowMs }
    let db := db.terminateHistory (· = msg.jobId) ctx.laterMs
    db.insertJobTransitions
      [{ jobId := msg.jobId, fromStatus := some .dispatched, toStatus := .failed,
         atMs := ctx.laterMs, coordinatorId := ctx.coordinatorId }]

/-- The expiry that `onHeartbeat` computes when the message arrives. -/
def heartbeatExpiry (ctx : Ctx) : Int := ctx.nowMs + HEARTBEAT_LEASE_TTL_MS + ctx.skewMs

/-- The UPDATE of `WorkerHubService.onHeartbeat`. -/
def onHeartbeatUpdate (workerId : WorkerId) (msg : JobHeartbeat) (newExpiry : Int) (db : Db) : Db :=
  db.updateLeases
    (fun l => l.jobId = msg.jobId && l.workerId = workerId && l.token = msg.token) newExpiry

/-- The SELECT of the reaper: expired leases joined with their DISPATCHED jobs. -/
def expiredLeases (ctx : Ctx) (now : Int) (db : Db) : List Lease :=
  db.leases.rows.filter fun l =>
    l.expiresAt < now && db.statusOf l.jobId = some .dispatched && !ctx.locked l.jobId

/-- The transaction of `LeaseReaperService.tick`. -/
def reaperTx (ctx : Ctx) (now : Int) (db : Db) : Db :=
  let ids := (expiredLeases ctx now db).map Lease.jobId
  if ids.isEmpty then db else
  let (_, db) := db.deleteLeases fun l => ids.contains l.jobId
  let (_, db) := db.updateJobs (fun r => ids.contains r.jobId && r.status = .dispatched)
    { status := .pending, result := none, updatedAt := ctx.nowMs }
  let db := db.terminateHistory (fun id => ids.contains id) ctx.laterMs
  db.insertJobTransitions <| ids.map fun id =>
    { jobId := id, fromStatus := some .dispatched, toStatus := .pending,
      atMs := ctx.laterMs, coordinatorId := ctx.coordinatorId }

/-- The transaction of `POST /jobs`. -/
def submitTx (ctx : Ctx) (idempotencyKey : String) (payload : Json) (db : Db) :
    Except PgError (JobId × Db) :=
  match db.insertJob { jobId := ctx.freshId, idempotencyKey, payload, status := .pending,
                       result := none, createdAt := ctx.pgNowMs, updatedAt := ctx.pgNowMs } with
  | .error e => .error e
  | .ok db => .ok (ctx.freshId, db.insertJobTransitions
      [{ jobId := ctx.freshId, fromStatus := none, toStatus := .pending,
         atMs := ctx.laterMs, coordinatorId := ctx.coordinatorId }])

/-- The transaction of `DELETE /jobs/:id`. Its UPDATE has no condition on the status. -/
def cancelTx (ctx : Ctx) (jobId : JobId) (db : Db) : Db :=
  let (_, db) := db.updateJobs (fun r => r.jobId = jobId)
    { status := .cancelled, result := none, updatedAt := ctx.pgNowMs }
  db.insertJobTransitions
    [{ jobId, fromStatus := some .pending, toStatus := .cancelled,
       atMs := ctx.laterMs, coordinatorId := ctx.coordinatorId }]

end Dispatcher
