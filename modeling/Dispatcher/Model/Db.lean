import Dispatcher.Lib.Tables
import Dispatcher.Model.Domain

namespace Dispatcher
open Tables

structure Job where
  jobId : JobId
  idempotencyKey : String
  payload : Json
  status : JobStatus
  result : Option Json
  createdAt : Int
  updatedAt : Int

structure Lease where
  jobId : JobId
  workerId : WorkerId
  token : Token
  expiresAt : Int

structure LeaseHistory where
  jobId : JobId
  workerId : WorkerId
  fence : Token
  /-- Named for milliseconds; the dispatcher stores microseconds. -/
  issuedAtMs : Int
  terminatedAtMs : Option Int

def LeaseHistory.terminate (p : JobId → Bool) (atMs : Int) (h : LeaseHistory) : LeaseHistory :=
  if p h.jobId && h.terminatedAtMs.isNone then { h with terminatedAtMs := some atMs } else h

/-- `none` in `fromStatus` is the empty string that a submission writes. -/
structure JobTransition where
  jobId : JobId
  fromStatus : Option JobStatus
  toStatus : JobStatus
  atMs : Int
  coordinatorId : CoordinatorId

structure CommitAttempt where
  jobId : JobId
  accepted : Bool
  fence : Token
  workerId : WorkerId
  atMs : Int

/-- The tables and the sequence of the two migrations. `Jobs` and `Leases` carry
their primary keys; the audit tables only grow, in the order of their serial ids. -/
structure Db where
  jobs : Table Job JobId Job.jobId
  leases : Table Lease JobId Lease.jobId
  leaseHistory : List LeaseHistory
  jobTransitions : List JobTransition
  commitAttempts : List CommitAttempt
  /-- The last value `fencing_seq` gave out; it starts at 1. -/
  fencingSeq : Nat

/-- What the driver throws. Only the unique violation has a code the routes read. -/
inductive PgError where
  | uniqueViolation
  | foreignKeyViolation
  deriving Repr, DecidableEq

namespace Db

def migrated : Db := ⟨.empty, .empty, [], [], [], 0⟩

def statusOf (db : Db) (j : JobId) : Option JobStatus := (db.jobs.lookup j).map Job.status

/-- `PK_Jobs` and `UQ_Jobs_IdempotencyKey`. -/
def insertJob (db : Db) (row : Job) : Except PgError Db :=
  if (db.jobs.lookup row.jobId).isSome then .error .uniqueViolation
  else if db.jobs.rows.any fun r => r.idempotencyKey = row.idempotencyKey then
    .error .uniqueViolation
  else .ok { db with jobs := db.jobs.insert row }

/-- `PK_Leases` and `FK_Leases_Jobs`. -/
def insertLease (db : Db) (row : Lease) : Except PgError Db :=
  if (db.leases.lookup row.jobId).isSome then .error .uniqueViolation
  else if (db.jobs.lookup row.jobId).isNone then .error .foreignKeyViolation
  else .ok { db with leases := db.leases.insert row }

def deleteLeases (db : Db) (p : Lease → Bool) : Nat × Db :=
  (db.leases.count p, { db with leases := db.leases.delete p })

def updateLeases (db : Db) (p : Lease → Bool) (expiresAt : Int) : Db :=
  { db with leases := db.leases.update p (fun l => { l with expiresAt }) fun _ => rfl }

structure JobPatch where
  status : JobStatus
  result : Option Json
  updatedAt : Int

def JobPatch.on (patch : JobPatch) (r : Job) : Job :=
  { r with status := patch.status, result := patch.result.or r.result,
           updatedAt := patch.updatedAt }

def updateJobs (db : Db) (p : Job → Bool) (patch : JobPatch) : Nat × Db :=
  (db.jobs.count p, { db with jobs := db.jobs.update p patch.on fun _ => rfl })

/-- `SET TerminatedAtMs = atMs WHERE p(JobID) AND TerminatedAtMs IS NULL`. -/
def terminateHistory (db : Db) (p : JobId → Bool) (atMs : Int) : Db :=
  { db with leaseHistory := db.leaseHistory.map (·.terminate p atMs) }

def insertLeaseHistory (db : Db) (row : LeaseHistory) : Db :=
  { db with leaseHistory := db.leaseHistory ++ [row] }

def insertJobTransitions (db : Db) (rows : List JobTransition) : Db :=
  { db with jobTransitions := db.jobTransitions ++ rows }

def insertCommitAttempt (db : Db) (row : CommitAttempt) : Db :=
  { db with commitAttempts := db.commitAttempts ++ [row] }

end Db

end Dispatcher
