import Dispatcher.Model.Hub
import Dispatcher.Model.Routes

namespace Dispatcher

/-- How long after its last pong a worker counts as alive. -/
def WORKER_ALIVE_MS : Int := 90000

/-- `LEASE_TTL_MS` of the report: the one that a dispatch gives. -/
def STATS_LEASE_TTL_MS : Int := 60000

def formatUptime (ms : Int) : String :=
  let s := ms / 1000
  let m := s / 60
  let h := m / 60
  let d := h / 24
  if 0 < d then s!"{d}d{h % 24}h{m % 60}m"
  else if 0 < h then s!"{h}h{m % 60}m"
  else if 0 < m then s!"{m}m{s % 60}s"
  else s!"{s}s"

/-- What `ChaosService.getState` returns. -/
structure ChaosState where
  dispatchPaused : Bool
  dropAcksRemaining : Int
  dbPartitioned : Bool
  clockSkewMs : Int

def ChaosState.line (chaos : ChaosState) : String :=
  "  ".intercalate <| [
    if chaos.dispatchPaused then some "dispatch_paused" else none,
    if chaos.dbPartitioned then some "db_partitioned" else none,
    if 0 < chaos.dropAcksRemaining then some s!"drop_acks={chaos.dropAcksRemaining}" else none,
    if chaos.clockSkewMs ≠ 0 then some s!"clock_skew={chaos.clockSkewMs}ms" else none].filterMap id

inductive StatsQuery where
  | pendingJobs | dispatchedJobs | activeLeases | stuckLeases | expiringLeases
  | recentTransitions | globalWorkers | allLeases
  deriving DecidableEq

/-- A row of `WorkerReg`, with its last pong. -/
structure WorkerRow extends WorkerReg where
  lastSeenAt : Int

/-- One request of `GET /stats`, with all that its handler reads. -/
structure StatsRequest where
  coordinatorId : CoordinatorId
  startedAt : Int
  /-- `Date.now()` and the skew at the start, and `Date.now()` later on. -/
  nowMs : Int
  skewMs : Int
  workersAtMs : Int
  endMs : Int
  chaos : ChaosState
  /-- The database that each query runs on, and how it fails. -/
  db : StatsQuery → Db
  thrown : StatsQuery → Option String
  /-- The rows of `WorkerReg`, in the order of their ids. -/
  workerReg : List WorkerRow

/-- A request with every clock at `atMs`, no chaos, and queries that succeed on `db`. -/
def StatsRequest.quiet (db : Db) (atMs : Int) : StatsRequest :=
  { coordinatorId := "c1", startedAt := 0, nowMs := atMs, skewMs := 0, workersAtMs := atMs,
    endMs := atMs, chaos := ⟨false, 0, false, 0⟩, db := fun _ => db, thrown := fun _ => none,
    workerReg := [] }

structure StatsReport where
  coordinatorId : CoordinatorId
  uptimeMs : Int
  /-- The live workers, each with its leases and its limit. -/
  workers : List (WorkerId × Nat × Int)
  pendingJobs : Nat
  dispatchedJobs : Nat
  stuckLeases : Nat
  activeLeases : Nat
  expiringLeases : Nat
  submitted60 : Nat
  completed60 : Nat
  failed60 : Nat
  lost60 : Nat
  chaos : ChaosState

namespace StatsReport

def workerDetail (r : StatsReport) : String :=
  if r.workers.isEmpty then "none"
  else "  ".intercalate <| r.workers.map fun (workerId, inFlight, limit) =>
    s!"{workerId}:{inFlight}/{limit}"

def lines (r : StatsReport) : List String :=
  let chaosLine := if r.chaos.line.isEmpty then "none" else r.chaos.line
  [s!"coordinator: {r.coordinatorId}  uptime: {formatUptime r.uptimeMs}  mode: leaderless",
   s!"workers:     {r.workers.length} connected  ( {r.workerDetail} )",
   s!"queue:       {r.pendingJobs} pending  {r.dispatchedJobs} in-flight  {r.stuckLeases} stuck>30s",
   s!"leases:      {r.activeLeases} active   {r.expiringLeases} expiring<5s",
   s!"last 60s:    {r.submitted60} submitted  {r.completed60} completed  {r.failed60} failed  {r.lost60} lost",
   s!"chaos:       {chaosLine}"]

def text (r : StatsReport) : String := "\n".intercalate r.lines ++ "\n"

end StatsReport

namespace StatsRequest

def now (q : StatsRequest) : Int := q.nowMs + q.skewMs

/-- A count that falls back to 0 where its query fails. -/
def count (q : StatsRequest) (kind : StatsQuery) (rows : Db → Nat) : Nat :=
  (BaseRepo.count (query (q.thrown kind) (rows (q.db kind)))).data.getD 0

/-- What the handler makes of its queries, with the rows that the last two return. -/
def report (q : StatsRequest) (globalWorkers : List WorkerRow) (allLeases : List Lease) :
    StatsReport :=
  let windowMs := q.now - 60000
  let recentTransitions :=
    (q.db .recentTransitions).jobTransitions.filter fun t => windowMs < t.atMs
  let inFlight := fun workerId => allLeases.countP fun l => l.workerId = workerId
  { coordinatorId := q.coordinatorId
    uptimeMs := q.endMs - q.startedAt
    workers := globalWorkers.map fun w => (w.workerId, inFlight w.workerId, w.concurrencyLimit)
    pendingJobs := q.count .pendingJobs fun db => db.jobs.count fun r => r.status = .pending
    dispatchedJobs := q.count .dispatchedJobs fun db =>
      db.jobs.count fun r => r.status = .dispatched
    stuckLeases := q.count .stuckLeases fun db =>
      db.leases.count fun l => l.expiresAt < q.now + STATS_LEASE_TTL_MS - 30000
    activeLeases := q.count .activeLeases fun db => db.leases.rows.length
    expiringLeases := q.count .expiringLeases fun db =>
      db.leases.count fun l => l.expiresAt < q.now + 5000
    submitted60 := recentTransitions.countP fun t => t.fromStatus = none && t.toStatus = .pending
    completed60 := recentTransitions.countP fun t => t.toStatus = .succeeded
    failed60 := recentTransitions.countP fun t => t.toStatus = .failed
    lost60 := recentTransitions.countP fun t =>
      t.fromStatus = some .dispatched && t.toStatus = .pending
    chaos := q.chaos }

end StatsRequest

/-- `GET /stats`; an error where the handler throws. -/
def getStats (q : StatsRequest) : Except String StatsReport :=
  match q.thrown .recentTransitions with
  | some message => .error message
  | none =>
    let { data := globalWorkers, .. } := BaseRepo.getAll "WorkerReg" false
      (query (q.thrown .globalWorkers)
        (q.workerReg.filter fun w => q.workersAtMs - WORKER_ALIVE_MS < w.lastSeenAt))
    let { data := allLeases, .. } := BaseRepo.getAll "Lease" false
      (query (q.thrown .allLeases) (q.db .allLeases).leases.rows)
    match globalWorkers with
    | none => .error "Cannot read properties of null (reading 'length')"
    | some globalWorkers => .ok (q.report globalWorkers (allLeases.getD []))

end Dispatcher
