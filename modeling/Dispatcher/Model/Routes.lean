import Mathlib.Data.List.Sort
import Mathlib.Data.Prod.Lex
import Dispatcher.Model.Cluster

namespace Dispatcher

structure GenericError where
  message : String
  status : Option Nat
  code : Option ResponseCode

/-- An error of the driver has neither a status nor a `ResponseCode`. -/
def driverError (message : String) : GenericError := ⟨message, none, none⟩

structure ResultWithError (α : Type) where
  data : Option α
  error : Option GenericError

def ResultWithError.thrown (r : ResultWithError α) : List String :=
  r.error.toList.map GenericError.message

namespace BaseRepo

/-- `BaseRepoService.get`, by what `findOne` returns or throws. -/
def get (entityName : String) (panic : Bool) (findOne : Except GenericError (Option α)) :
    ResultWithError α :=
  match findOne with
  | .ok (some result) => ⟨some result, none⟩
  | .ok none =>
    if panic then ⟨none, some ⟨s!"{entityName} not found", some 404, some .notFound⟩⟩
    else ⟨none, none⟩
  | .error error => ⟨none, some error⟩

def getAll (entityName : String) (panic : Bool) (find : Except GenericError (List α)) :
    ResultWithError (List α) :=
  match find with
  | .ok result =>
    if result.length = 0 && panic then
      ⟨none, some ⟨s!"No {entityName} records found", some 404, some .notFound⟩⟩
    else ⟨some result, none⟩
  | .error error => ⟨none, some error⟩

def count (counted : Except GenericError Nat) : ResultWithError Nat :=
  match counted with
  | .ok result => ⟨some result, none⟩
  | .error error => ⟨none, some error⟩

end BaseRepo

/-- A query that the driver fails with a message, or that returns `result`. -/
def query (thrown : Option String) (result : α) : Except GenericError α :=
  match thrown with
  | some message => .error (driverError message)
  | none => .ok result

/-- What a route has answered, with the payload of a read. -/
structure RouteAnswer (α : Type) where
  response : Response
  data : Option α
  /-- What the queries of the handler have thrown. -/
  thrown : List String

/-- The `catch` block of the routes. -/
def caught (body : Except GenericError (Response × Option α)) : Response × Option α :=
  match body with
  | .ok answer => answer
  | .error e => (makeResponse (e.status.getD 500) false e.message .empty
      (some (e.code.getD .internalError)), none)

def jobNotFound : Response := makeResponse 404 false "job not found" .empty (some .jobNotFound)

/-- `GET /jobs/:id`; `lookup` is how its query fails. -/
def getJob (db : Db) (jobId : JobId) (lookup : Option String) : RouteAnswer Job :=
  let { data := job, .. } := BaseRepo.get "Job" false (query lookup (db.jobs.lookup jobId))
  let (response, data) := caught <| match job with
    | none => .ok (jobNotFound, none)
    | some job => .ok (makeResponse 200 true "job found" .empty (some .ok), some job)
  ⟨response, data, lookup.toList⟩

/-- `DELETE /jobs/:id`, whose transaction runs on `db'`. -/
def deleteJob (ctx : Ctx) (db db' : Db) (jobId : JobId) (lookup tx : Option String) :
    RouteAnswer Unit × Db :=
  let { data := job, .. } := BaseRepo.get "Job" false (query lookup (db.jobs.lookup jobId))
  match job with
  | none =>
    (⟨makeResponse 404 false "job not found" .empty none, none, lookup.toList⟩, db')
  | some job =>
    if job.status ≠ .pending then
      (⟨makeResponse 409 false s!"cannot cancel job in status {job.status.text}" .empty none, none,
        lookup.toList⟩, db')
    else
      let committed := query tx (cancelTx ctx job.jobId db')
      let (response, data) := caught (committed.map fun _ => (jobCancelled job.jobId, none))
      (⟨response, data, lookup.toList ++ tx.toList⟩, committed.toOption.getD db')

structure AuditTransition where
  fromStatus : Option JobStatus
  toStatus : JobStatus
  atMs : Int
  coordinator : CoordinatorId

structure AuditCommit where
  accepted : Bool
  fence : Token
  worker : WorkerId
  atMs : Int

structure AuditLease where
  fence : Token
  worker : WorkerId
  issuedAtMs : Int
  expiredAtMs : Option Int

structure AuditTrail where
  transitions : List AuditTransition
  commits : List AuditCommit
  leaseHistory : List AuditLease

/-- `ORDER BY` on the columns of `key`. -/
def orderBy [LinearOrder κ] (key : α → κ) (rows : List α) : List α :=
  rows.insertionSort fun a b => key a ≤ key b

/-- `GET /audit`, with how its three queries fail. -/
def audit (db : Db) (jobId : Option JobId) (transitions commits leases : Option String) :
    RouteAnswer AuditTrail :=
  match jobId with
  | none => ⟨validationError "job_id query param required", none, []⟩
  | some jobId =>
    let { data := ts, .. } := BaseRepo.getAll "JobTransition" false (query transitions
      (orderBy JobTransition.atMs (db.jobTransitions.filter fun t => t.jobId = jobId)))
    let { data := cs, .. } := BaseRepo.getAll "CommitAttempt" false (query commits
      (orderBy CommitAttempt.atMs (db.commitAttempts.filter fun c => c.jobId = jobId)))
    let { data := ls, .. } := BaseRepo.getAll "LeaseHistory" false (query leases
      (orderBy (fun l => toLex (l.issuedAtMs, l.fence))
        (db.leaseHistory.filter fun l => l.jobId = jobId)))
    ⟨makeResponse 200 true "audit" .empty (some .ok),
      some {
        transitions := (ts.getD []).map fun t => ⟨t.fromStatus, t.toStatus, t.atMs, t.coordinatorId⟩
        commits := (cs.getD []).map fun c => ⟨c.accepted, c.fence, c.workerId, c.atMs⟩
        leaseHistory := (ls.getD []).map fun l =>
          ⟨l.fence, l.workerId, l.issuedAtMs, l.terminatedAtMs⟩ },
      transitions.toList ++ commits.toList ++ leases.toList⟩

end Dispatcher
