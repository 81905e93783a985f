import Dispatcher.Lib.Fencing
import Dispatcher.Model.Transactions

namespace Dispatcher
open Fencing

/-- What the tables say about one job. -/
structure JobView where
  job : Option Job
  lease : Option Lease
  history : List LeaseHistory
  transitions : List JobTransition
  commits : List CommitAttempt

namespace JobView

def status (v : JobView) : Option JobStatus := v.job.map Job.status

def result (v : JobView) : Option Json := v.job.bind Job.result

def openRows (v : JobView) : List LeaseHistory := v.history.filter fun h => h.terminatedAtMs.isNone

def terminate (v : JobView) (atMs : Int) : List LeaseHistory :=
  v.history.map (·.terminate (fun _ => true) atMs)

def patchDispatched (v : JobView) (patch : Db.JobPatch) : Option Job :=
  v.job.map fun r => if r.status = .dispatched then patch.on r else r

/-- A job as a resource under fencing tokens: a lease counts while the job is
DISPATCHED, and a terminal job is never leased again. -/
def ledger (v : JobView) : Ledger WorkerId Token (Option Json) where
  grants := v.history.map fun h => (h.workerId, h.fence)
  holder := if v.status = some .dispatched then v.lease.map fun l => (l.workerId, l.token) else none
  accepted := v.commits.map fun c => ((c.workerId, c.fence), v.result)
  live := !v.status.any JobStatus.terminal

end JobView

/-- What one transaction does to one job. -/
inductive JobEvent where
  | submitted (ctx : Ctx) (key : String) (payload : Json)
  | dispatched (ctx : Ctx) (workerId : WorkerId) (token : Token)
  | accepted (ctx : Ctx) (workerId : WorkerId) (token : Token) (result : Json)
  /-- A lease goes, but the job was not DISPATCHED. -/
  | discarded
  | requeued (ctx : Ctx)
  | failed (ctx : Ctx)
  | reaped (ctx : Ctx)
  | cancelled (ctx : Ctx)
  | extended (expiresAt : Int)

namespace JobEvent

def log (ctx : Ctx) (j : JobId) (fromStatus : Option JobStatus) (toStatus : JobStatus) :
    JobTransition :=
  { jobId := j, fromStatus, toStatus, atMs := ctx.laterMs, coordinatorId := ctx.coordinatorId }

def apply (j : JobId) (v : JobView) : JobEvent → JobView
  | submitted ctx key payload =>
    { v with
      job := some { jobId := j, idempotencyKey := key, payload, status := .pending, result := none,
                    createdAt := ctx.pgNowMs, updatedAt := ctx.pgNowMs }
      transitions := v.transitions ++ [log ctx j none .pending] }
  | dispatched ctx workerId token =>
    { v with
      job := v.job.map (Db.JobPatch.on ⟨.dispatched, none, ctx.pgNowMs⟩)
      lease := some { jobId := j, workerId, token,
                      expiresAt := ctx.nowMs + DISPATCH_LEASE_TTL_MS + ctx.skewMs }
      history := v.history ++ [{ jobId := j, workerId, fence := token,
                                 issuedAtMs := ctx.pgClockUs, terminatedAtMs := none }]
      transitions := v.transitions ++ [log ctx j (some .pending) .dispatched] }
  | accepted ctx workerId token result =>
    { job := v.patchDispatched ⟨.succeeded, some result, ctx.nowMs⟩
      lease := none
      history := v.terminate ctx.laterMs
      transitions := v.transitions ++ [log ctx j (some .dispatched) .succeeded]
      commits := v.commits ++ [{ jobId := j, accepted := true, fence := token, workerId,
                                 atMs := ctx.laterMs }] }
  | discarded => { v with lease := none }
  | requeued ctx =>
    { v with
      job := v.patchDispatched ⟨.pending, none, ctx.pgNowMs⟩
      lease := none
      history := v.terminate ctx.laterMs }
  | failed ctx =>
    { v with
      job := v.patchDispatched ⟨.failed, none, ctx.pgNowMs⟩
      lease := none
      history := v.terminate ctx.laterMs
      transitions := v.transitions ++ [log ctx j (some .dispatched) .failed] }
  | reaped ctx =>
    { v with
      job := v.patchDispatched ⟨.pending, none, ctx.nowMs⟩
      lease := none
      history := v.terminate ctx.laterMs
      transitions := v.transitions ++ [log ctx j (some .dispatched) .pending] }
  | cancelled ctx =>
    { v with
      job := v.job.map (Db.JobPatch.on ⟨.cancelled, none, ctx.pgNowMs⟩)
      transitions := v.transitions ++ [log ctx j (some .pending) .cancelled] }
  | extended expiresAt => { v with lease := v.lease.map fun l => { l with expiresAt } }

/-- When an event can happen, with `n` the last fencing token given out. -/
def Enabled (n : Nat) (v : JobView) : JobEvent → Prop
  | submitted .. => v.job = none
  | dispatched _ _ token => v.status = some .pending ∧ v.lease = none ∧ n < token
  | accepted _ workerId token _ =>
    v.status = some .dispatched ∧ ∃ l, v.lease = some l ∧ l.workerId = workerId ∧ l.token = token
  | discarded => v.status ≠ some .dispatched
  | reaped _ => v.status = some .dispatched
  | requeued _ | failed _ | cancelled _ | extended _ => True

end JobEvent

end Dispatcher
