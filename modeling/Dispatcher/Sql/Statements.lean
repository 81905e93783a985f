import Dispatcher.Lib.ReadCommitted
import Dispatcher.Model.Transactions

namespace Dispatcher
open Tables ReadCommitted

/-- What a transaction can hold until it ends. A key of a unique index counts as
held by the transaction that inserts under it. -/
inductive Lock where
  | job (j : JobId)
  | lease (j : JobId)
  | history (j : JobId) (fence : Token)
  | key (k : String)
  /-- `pg_advisory_xact_lock(7919)`. -/
  | advisory
  deriving Repr, DecidableEq

/-- A row version that a statement finds; `new` is the row of an INSERT. -/
inductive Row where
  | job (j : JobId)
  | lease (j : JobId) (token : Token)
  | history (j : JobId) (fence : Token)
  | new
  deriving Repr, DecidableEq

inductive Write where
  | insertJob (row : Job)
  | patchJob (j : JobId) (patch : Db.JobPatch)
  | insertLease (row : Lease)
  | extendLease (j : JobId) (expiresAt : Int)
  | deleteLease (j : JobId)
  | insertHistory (row : LeaseHistory)
  | terminate (j : JobId) (fence : Token) (atMs : Int)
  | insertTransition (row : JobTransition)
  | insertCommit (row : CommitAttempt)

def Write.apply : Write → Db → Db
  | insertJob row, db => { db with jobs := db.jobs.insert row }
  | patchJob j patch, db => (db.updateJobs (fun r => r.jobId = j) patch).2
  | insertLease row, db => { db with leases := db.leases.insert row }
  | extendLease j expiresAt, db => db.updateLeases (fun l => l.jobId = j) expiresAt
  | deleteLease j, db => (db.deleteLeases fun l => l.jobId = j).2
  | insertHistory row, db => db.insertLeaseHistory row
  | terminate j fence atMs, db =>
    { db with leaseHistory := db.leaseHistory.map fun h =>
        if h.fence = fence then h.terminate (· = j) atMs else h }
  | insertTransition row, db => db.insertJobTransitions [row]
  | insertCommit row, db => db.insertCommitAttempt row

namespace Sql

abbrev Stmt := ReadCommitted.Stmt Db Row Lock Write

/-- `SELECT ... FROM Jobs WHERE Status = PENDING ORDER BY CreatedAt LIMIT 1
FOR UPDATE SKIP LOCKED`. -/
def selectPending : Stmt where
  scan db := (db.jobs.rows.filter fun r => r.status = .pending).map fun r => .job r.jobId
  before db
    | .job i, .job j => (db.jobs.lookup i).all fun r => (db.jobs.lookup j).all fun q =>
        r.createdAt ≤ q.createdAt
    | _, _ => true
  single := true
  skipLocked := true
  locks
    | .job j => [.job j]
    | _ => []
  recheck db
    | .job j => db.statusOf j = some .pending
    | _ => false
  writes _ := []

/-- `SELECT ... FROM Leases JOIN Jobs WHERE ExpiresAt < now AND Status = DISPATCHED
FOR UPDATE SKIP LOCKED`, with or without the rows of `Jobs` locked as well. -/
def selectExpired (now : Int) (lockJobs : Bool) : Stmt where
  scan db := (db.leases.rows.filter fun l =>
    l.expiresAt < now && db.statusOf l.jobId = some .dispatched).map fun l => .lease l.jobId l.token
  skipLocked := true
  locks
    | .lease j _ => if lockJobs then [.lease j, .job j] else [.lease j]
    | _ => []
  recheck db
    | .lease j token => ((db.leases.lookup j).any fun l => l.token = token && l.expiresAt < now) &&
        (!lockJobs || db.statusOf j = some .dispatched)
    | _ => false
  writes _ := []

def deleteLeases (p : Lease → Bool) : Stmt where
  scan db := (db.leases.rows.filter p).map fun l => .lease l.jobId l.token
  locks
    | .lease j _ => [.lease j]
    | _ => []
  recheck db
    | .lease j token => (db.leases.lookup j).any fun l => l.token = token && p l
    | _ => false
  writes
    | .lease j _ => [.deleteLease j]
    | _ => []

def updateLeases (p : Lease → Bool) (expiresAt : Int) : Stmt :=
  { deleteLeases p with
    writes := fun r => match r with
      | .lease j _ => [.extendLease j expiresAt]
      | _ => [] }

def updateJobs (p : Job → Bool) (patch : Db.JobPatch) : Stmt where
  scan db := (db.jobs.rows.filter p).map fun r => .job r.jobId
  locks
    | .job j => [.job j]
    | _ => []
  recheck db
    | .job j => (db.jobs.lookup j).any p
    | _ => false
  writes
    | .job j => [.patchJob j patch]
    | _ => []

/-- `UPDATE LeaseHistory SET TerminatedAtMs = atMs WHERE p(JobID) AND TerminatedAtMs IS NULL`. -/
def terminateHistory (p : JobId → Bool) (atMs : Int) : Stmt where
  scan db := (db.leaseHistory.filter fun h => p h.jobId && h.terminatedAtMs.isNone).map fun h =>
    .history h.jobId h.fence
  locks
    | .history j fence => [.history j fence]
    | _ => []
  recheck db
    | .history j fence => db.leaseHistory.any fun h =>
        h.jobId = j && h.fence = fence && p h.jobId && h.terminatedAtMs.isNone
    | _ => false
  writes
    | .history j fence => [.terminate j fence atMs]
    | _ => []

def insertJob (row : Job) : Stmt where
  scan _ := [.new]
  locks _ := [.job row.jobId, .key row.idempotencyKey]
  violates db _ := (db.jobs.lookup row.jobId).isSome ||
    db.jobs.rows.any fun r => r.idempotencyKey = row.idempotencyKey
  writes _ := [.insertJob row]

def insertLease (row : Lease) : Stmt where
  scan _ := [.new]
  locks _ := [.lease row.jobId]
  violates db _ := (db.leases.lookup row.jobId).isSome || (db.jobs.lookup row.jobId).isNone
  writes _ := [.insertLease row]

/-- An INSERT into a table with nothing but its serial id. -/
def insert (ws : List Write) : Stmt where
  scan _ := [.new]
  locks _ := []
  writes _ := ws

/-- `SELECT pg_advisory_xact_lock(7919)`. -/
def advisoryLock : Stmt where
  scan _ := [.new]
  locks _ := [.advisory]
  writes _ := []

variable {w : Write} {r : Row}

theorem mem_updateJobs {p : Job → Bool} {patch : Db.JobPatch}
    (h : w ∈ (updateJobs p patch).writes r) : ∃ j, r = .job j ∧ w = .patchJob j patch := by
  cases r with
  | job j => exact ⟨j, rfl, List.mem_singleton.mp h⟩
  | _ => cases h

theorem mem_deleteLeases {p : Lease → Bool} (h : w ∈ (deleteLeases p).writes r) :
    ∃ j token, r = .lease j token ∧ w = .deleteLease j := by
  cases r with
  | lease j token => exact ⟨j, token, rfl, List.mem_singleton.mp h⟩
  | _ => cases h

theorem mem_updateLeases {p : Lease → Bool} {expiresAt : Int}
    (h : w ∈ (updateLeases p expiresAt).writes r) :
    ∃ j token, r = .lease j token ∧ w = .extendLease j expiresAt := by
  cases r with
  | lease j token => exact ⟨j, token, rfl, List.mem_singleton.mp h⟩
  | _ => cases h

theorem mem_terminateHistory {p : JobId → Bool} {atMs : Int}
    (h : w ∈ (terminateHistory p atMs).writes r) :
    ∃ j fence, r = .history j fence ∧ w = .terminate j fence atMs := by
  cases r with
  | history j fence => exact ⟨j, fence, rfl, List.mem_singleton.mp h⟩
  | _ => cases h

end Sql

end Dispatcher
