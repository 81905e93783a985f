import Dispatcher.Proofs.TokenMessages

namespace Dispatcher
open Runs Tables

namespace WorkerService

/-- A run of `(j, t)` is still executing. -/
def Works (w : WorkerService) (j : JobId) (t : Token) : Prop :=
  ∃ run ∈ w.executions, run.jobId = j ∧ run.token = t

/-- The result of `(j, job.token)` is sent again until it is acked. -/
def AwaitsAck (w : WorkerService) (j : JobId) (job : InFlightJob) : Prop :=
  job.result.isSome = true ∧ job.retryCount ≤ 4 ∧
    ∃ id, job.retryTimer = some id ∧ ⟨id, .resultRetry j job.token⟩ ∈ w.timers

def retries (j : JobId) (t : Token) (e : Event WorkerService WorkerEvent) : Bool :=
  e.action.retries e.before.jobView j t

theorem mem_jobView {w : WorkerService} {timer : Timer} (h : timer.callback ≠ .reconnect) :
    timer ∈ w.jobView.timers ↔ timer ∈ w.timers := by
  simp [jobView, h]

/-- A slot is taken by a run, or by a result that waits for its ack. -/
theorem Kept.entry {w : WorkerService} (h : w.Kept) {j : JobId} {job : InFlightJob}
    (present : w.inFlight.lookup j = some job) : w.Works j job.token ∨ w.AwaitsAck j job := by
  rcases h.upkeep.tended j job present with working | ⟨stored, count, id, handle, armed⟩
  · exact .inl working
  · exact .inr ⟨stored, Nat.le_of_lt_succ count, id, handle, (mem_jobView (by simp)).mp armed⟩

variable {workerId : WorkerId} {limit : Int} {w : WorkerService}
  {es : List (Event WorkerService WorkerEvent)}

end WorkerService

end Dispatcher
