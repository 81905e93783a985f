import Dispatcher.Job.Lifecycle
import Dispatcher.Sql.Statements
import Mathlib.Order.Basic

namespace Dispatcher
open Tables ReadCommitted

/-- What a rollback does not undo: `fencing_seq` and Postgres' clock. -/
@[ext] structure Env where
  fencingSeq : Nat
  clockUs : Int

instance : LE Env := ⟨fun a b => a.fencingSeq ≤ b.fencingSeq ∧ a.clockUs ≤ b.clockUs⟩

instance : DecidableLE Env := fun a b =>
  inferInstanceAs (Decidable (a.fencingSeq ≤ b.fencingSeq ∧ a.clockUs ≤ b.clockUs))

instance : Preorder Env where
  le_refl _ := ⟨Nat.le_refl _, Int.le_refl _⟩
  le_trans _ _ _ h h' := ⟨Nat.le_trans h.1 h'.1, Int.le_trans h.2 h'.2⟩

/-- The row that a dispatch has locked, with what it goes on to read. -/
structure Grant where
  ctx : Ctx
  workerId : WorkerId
  jobId : JobId
  token : Token
  issuedAtMs : Int

/-- The program points of the transactions, each before its statement. -/
inductive Prog where
  | submitJob (ctx : Ctx) (key : String) (payload : Json)
  | submitTransition (ctx : Ctx)
  | cancelJob (ctx : Ctx) (j : JobId)
  | cancelTransition (ctx : Ctx) (j : JobId)
  | dispatchSelect (ctx : Ctx) (workerId : WorkerId) (clockFirst : Bool)
  | dispatchLock (ctx : Ctx) (workerId : WorkerId) (clockFirst : Bool) (j : JobId)
  /-- `nextval` and `clock_timestamp()`, in either order. -/
  | dispatchRead (ctx : Ctx) (workerId : WorkerId) (clockFirst : Bool) (j : JobId)
  | dispatchClock (ctx : Ctx) (workerId : WorkerId) (j : JobId) (token : Token)
  | dispatchToken (ctx : Ctx) (workerId : WorkerId) (j : JobId) (issuedAtMs : Int)
  | dispatchLease (g : Grant)
  | dispatchStatus (g : Grant)
  | dispatchHistory (g : Grant)
  | dispatchTransition (g : Grant)
  | resultLease (ctx : Ctx) (workerId : WorkerId) (msg : JobResult)
  | resultJob (ctx : Ctx) (workerId : WorkerId) (msg : JobResult)
  | resultCommit (ctx : Ctx) (workerId : WorkerId) (msg : JobResult)
  | resultHistory (ctx : Ctx) (j : JobId)
  | resultTransition (ctx : Ctx) (j : JobId)
  | failedLease (ctx : Ctx) (msg : JobFailed)
  | failedJob (ctx : Ctx) (msg : JobFailed)
  | failedHistory (ctx : Ctx) (msg : JobFailed)
  | failedTransition (ctx : Ctx) (msg : JobFailed)
  | heartbeatLease (workerId : WorkerId) (msg : JobHeartbeat) (newExpiry : Int)
  | reaperSelect (ctx : Ctx) (now : Int) (lockJobs : Bool)
  | reaperLeases (ctx : Ctx) (ids : List JobId)
  | reaperJobs (ctx : Ctx) (ids : List JobId)
  | reaperHistory (ctx : Ctx) (ids : List JobId)
  | reaperTransitions (ctx : Ctx) (ids : List JobId)
  | done

def Row.leased : Row → Option JobId
  | .lease j _ => some j
  | _ => none

def nextval (e : Env) : Env × Token :=
  ({ e with fencingSeq := e.fencingSeq + 1 }, e.fencingSeq + 1)

namespace Grant

def lease (g : Grant) : Lease :=
  { jobId := g.jobId, workerId := g.workerId, token := g.token,
    expiresAt := g.ctx.nowMs + DISPATCH_LEASE_TTL_MS + g.ctx.skewMs }

def history (g : Grant) : LeaseHistory :=
  { jobId := g.jobId, workerId := g.workerId, fence := g.token, issuedAtMs := g.issuedAtMs,
    terminatedAtMs := none }

end Grant

namespace Prog

abbrev Cmd := ReadCommitted.Cmd Db Row Lock Write Env Prog

def entry : Prog → Bool
  | submitJob .. | cancelJob .. | dispatchSelect .. | resultLease .. | failedLease ..
  | heartbeatLease .. | reaperSelect .. => true
  | _ => false

/-- The bodies of the transactions, statement by statement. -/
def code : Prog → Cmd
  -- POST /jobs
  | submitJob ctx key payload =>
    .sql (Sql.insertJob { jobId := ctx.freshId, idempotencyKey := key, payload, status := .pending,
                          result := none, createdAt := ctx.pgNowMs, updatedAt := ctx.pgNowMs })
      fun _ => submitTransition ctx
  | submitTransition ctx =>
    .sql (Sql.insert [.insertTransition (JobEvent.log ctx ctx.freshId none .pending)]) fun _ => done
  -- DELETE /jobs/:id
  | cancelJob ctx j =>
    .sql (Sql.updateJobs (fun r => r.jobId = j) ⟨.cancelled, none, ctx.pgNowMs⟩)
      fun _ => cancelTransition ctx j
  | cancelTransition ctx j =>
    .sql (Sql.insert [.insertTransition (JobEvent.log ctx j (some .pending) .cancelled)]) fun _ => done
  -- tryDispatchOne
  | dispatchSelect ctx workerId clockFirst =>
    .sql Sql.selectPending fun
      | .job j :: _ => dispatchLock ctx workerId clockFirst j
      | _ => done
  | dispatchLock ctx workerId clockFirst j =>
    .sql Sql.advisoryLock fun _ => dispatchRead ctx workerId clockFirst j
  | dispatchRead ctx workerId clockFirst j =>
    .call fun e =>
      if clockFirst then (e, dispatchToken ctx workerId j e.clockUs)
      else ((nextval e).1, dispatchClock ctx workerId j (nextval e).2)
  | dispatchClock ctx workerId j token =>
    .call fun e => (e, dispatchLease ⟨ctx, workerId, j, token, e.clockUs⟩)
  | dispatchToken ctx workerId j issuedAtMs =>
    .call fun e => ((nextval e).1, dispatchLease ⟨ctx, workerId, j, (nextval e).2, issuedAtMs⟩)
  | dispatchLease g => .sql (Sql.insertLease g.lease) fun _ => dispatchStatus g
  | dispatchStatus g =>
    .sql (Sql.updateJobs (fun r => r.jobId = g.jobId) ⟨.dispatched, none, g.ctx.pgNowMs⟩)
      fun _ => dispatchHistory g
  | dispatchHistory g => .sql (Sql.insert [.insertHistory g.history]) fun _ => dispatchTransition g
  | dispatchTransition g =>
    .sql (Sql.insert [.insertTransition (JobEvent.log g.ctx g.jobId (some .pending) .dispatched)])
      fun _ => done
  -- onResult
  | resultLease ctx workerId msg =>
    .sql (Sql.deleteLeases fun l =>
        l.jobId = msg.jobId && l.workerId = workerId && l.token = msg.token) fun affected =>
      if affected.isEmpty then done else resultJob ctx workerId msg
  | resultJob ctx workerId msg =>
    .sql (Sql.updateJobs (fun r => r.jobId = msg.jobId && r.status = .dispatched)
        ⟨.succeeded, some msg.result, ctx.nowMs⟩) fun affected =>
      if affected.isEmpty then done else resultCommit ctx workerId msg
  | resultCommit ctx workerId msg =>
    .sql (Sql.insert [.insertCommit ⟨msg.jobId, true, msg.token, workerId, ctx.laterMs⟩])
      fun _ => resultHistory ctx msg.jobId
  | resultHistory ctx j =>
    .sql (Sql.terminateHistory (· = j) ctx.laterMs) fun _ => resultTransition ctx j
  | resultTransition ctx j =>
    .sql (Sql.insert [.insertTransition (JobEvent.log ctx j (some .dispatched) .succeeded)])
      fun _ => done
  -- onFailed
  | failedLease ctx msg =>
    .sql (Sql.deleteLeases fun l => l.jobId = msg.jobId) fun _ => failedJob ctx msg
  | failedJob ctx msg =>
    .sql (Sql.updateJobs (fun r => r.jobId = msg.jobId && r.status = .dispatched)
        ⟨if msg.temporary then .pending else .failed, none, ctx.pgNowMs⟩)
      fun _ => failedHistory ctx msg
  | failedHistory ctx msg =>
    .sql (Sql.terminateHistory (· = msg.jobId) ctx.laterMs) fun _ =>
      if msg.temporary then done else failedTransition ctx msg
  | failedTransition ctx msg =>
    .sql (Sql.insert [.insertTransition (JobEvent.log ctx msg.jobId (some .dispatched) .failed)])
      fun _ => done
  -- onHeartbeat
  | heartbeatLease workerId msg newExpiry =>
    .sql (Sql.updateLeases (fun l =>
        l.jobId = msg.jobId && l.workerId = workerId && l.token = msg.token) newExpiry) fun _ => done
  -- the reaper's tick
  | reaperSelect ctx now lockJobs =>
    .sql (Sql.selectExpired now lockJobs) fun affected =>
      if affected.isEmpty then done else reaperLeases ctx (affected.filterMap Row.leased)
  | reaperLeases ctx ids =>
    .sql (Sql.deleteLeases fun l => ids.contains l.jobId) fun _ => reaperJobs ctx ids
  | reaperJobs ctx ids =>
    .sql (Sql.updateJobs (fun r => ids.contains r.jobId && r.status = .dispatched)
        ⟨.pending, none, ctx.nowMs⟩) fun _ => reaperHistory ctx ids
  | reaperHistory ctx ids =>
    .sql (Sql.terminateHistory (fun j => ids.contains j) ctx.laterMs)
      fun _ => reaperTransitions ctx ids
  | reaperTransitions ctx ids =>
    .sql (Sql.insert (ids.map fun j =>
        .insertTransition (JobEvent.log ctx j (some .dispatched) .pending))) fun _ => done
  | done => .finish

end Prog

/-- The transactions of all coordinators over one Postgres. -/
def sqlMachine : Machine Db Row Lock Write Env Prog := ⟨Prog.entry, Prog.code, Write.apply⟩

def migratedStore (clockUs : Int) : Store Db Row Lock Write Env Prog :=
  ⟨.migrated, ⟨0, clockUs⟩, fun _ => none, fun _ => none⟩

abbrev SqlTxn := Txn Row Write Prog
abbrev SqlStore := Store Db Row Lock Write Env Prog
abbrev SqlLabel := Label Row Lock Env Prog

def submits (t : Nat) (ctx : Ctx) (key : String) : List SqlLabel :=
  .start t (.submitJob ctx key (.obj [])) ::
    (Label.statement t [.new] ++ Label.statement t [.new] ++ [.commit t])

def dispatches (t : Nat) (ctx : Ctx) (workerId : WorkerId) (j : JobId) : List SqlLabel :=
  .start t (.dispatchSelect ctx workerId false) ::
    (Label.statement t [.job j] ++ Label.statement t [.new] ++ [.call t, .call t] ++
      Label.statement t [.new] ++ Label.statement t [.job j] ++ Label.statement t [.new] ++
      Label.statement t [.new] ++ [.commit t])

def reaps (t : Nat) (ctx : Ctx) (j : JobId) (token : Token) : List SqlLabel :=
  .start t (.reaperSelect ctx ctx.nowMs true) ::
    (Label.statement t [.lease j token] ++ Label.statement t [.lease j token] ++
      Label.statement t [.job j] ++ Label.statement t [.history j token] ++
      Label.statement t [.new] ++ [.commit t])

/-- A job is submitted and dispatched. -/
def dispatchRun : List SqlLabel :=
  submits 0 (.quiet "c1" 1) "k" ++ dispatches 1 (.quiet "c1" 2) "w1" 1

end Dispatcher
