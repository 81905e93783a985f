import Dispatcher.Lib.Runs
import Dispatcher.Model.Routes

namespace Dispatcher
open Runs

/-- The data of one event that `sendEvent` writes. -/
inductive SseEvent where
  /-- The first one. -/
  | opened (status : JobStatus) (jobId : JobId)
  | polled (status : JobStatus) (jobId : JobId) (result : Option Json)
  | error (message : String)

def SseEvent.terminal : SseEvent → Bool
  | .opened status _ | .polled status _ _ => status.terminal
  | .error _ => false

def SseEvent.status : SseEvent → Option JobStatus
  | .opened status _ | .polled status _ _ => some status
  | .error _ => none

/-- The `jobRepo.get` that a part of the handler awaits. -/
inductive JobQuery where
  | lookup | poll
  deriving DecidableEq

/-- One request of `GET /jobs/:id/stream`, with the row of its job. -/
structure JobStream where
  row : Option Job
  /-- The queries under way, with what they have found once they have run. -/
  queries : List (JobQuery × Option (ResultWithError Job))
  /-- What `makeResponse` has answered in place of a stream. -/
  answer : Option (RouteAnswer Job)
  events : List SseEvent
  /-- The timeout and the interval, while they are armed. -/
  deadline : Bool
  poll : Bool
  /-- `res.end()` has been called on the stream. -/
  ended : Bool
  /-- The listener of `close` is registered. -/
  listening : Bool
  /-- The client has closed, and the listener has run for that. -/
  closed : Bool
  handled : Bool

inductive StreamAction where
  /-- Others write the row of the job. -/
  | write (row : Option Job)
  /-- The `i`-th query runs, or throws. -/
  | run (i : Nat) (thrown : Option String)
  /-- The handler goes on with the result of the `i`-th query. -/
  | reply (i : Nat)
  /-- The interval and the timeout fire. -/
  | interval
  | timeout
  | close

namespace JobStream

def start (row : Option Job) : JobStream :=
  ⟨row, [(.lookup, none)], none, [], false, false, false, false, false, false⟩

/-- The handler from its first await to the registration of the listener. -/
def setup (s : JobStream) (found : ResultWithError Job) : JobStream :=
  match found.data with
  | none => { s with answer := some ⟨jobNotFound, none, found.thrown⟩ }
  | some job =>
    if job.status.terminal then
      { s with answer := some ⟨makeResponse 200 true "job complete" .empty (some .ok), some job,
          found.thrown⟩ }
    else
      { s with
        events := s.events ++ [.opened job.status job.jobId]
        deadline := true
        poll := true
        listening := true }

/-- `clearInterval(poll)` and `clearTimeout(deadline)`. -/
def clear (s : JobStream) : JobStream := { s with poll := false, deadline := false }

/-- `res.end()`. Unless the client has closed, the request now emits its `close`, and
the listener clears the timers before another callback runs. -/
def finish (s : JobStream) : JobStream :=
  if s.closed then { s with ended := true } else { s.clear with ended := true }

/-- The callback of the interval after its await. -/
def polled (s : JobStream) (found : ResultWithError Job) : JobStream :=
  match found.data with
  | none => s.clear.finish
  | some current =>
    let s := { s with events := s.events ++ [.polled current.status current.jobId current.result] }
    if current.status.terminal then s.clear.finish else s

def step : Runs.Step JobStream StreamAction := fun s a =>
  match a with
  | .write row => some { s with row }
  | .run i thrown =>
    match s.queries[i]? with
    | some (q, none) => some { s with
        queries := s.queries.set i (q, some (BaseRepo.get "Job" false (query thrown s.row))) }
    | _ => none
  | .reply i =>
    match s.queries[i]? with
    | some (.lookup, some found) => some ({ s with queries := s.queries.eraseIdx i }.setup found)
    | some (.poll, some found) => some ({ s with queries := s.queries.eraseIdx i }.polled found)
    | _ => none
  | .interval => if s.poll then some { s with queries := s.queries ++ [(.poll, none)] } else none
  | .timeout =>
    if s.deadline then
      -- nothing but the `close` after the end clears the interval here
      let s := { s with deadline := false, events := s.events ++ [SseEvent.error "stream timeout"] }
      some s.finish
    else none
  | .close =>
    if s.closed then none
    -- a request emits `close` once, and one that has ended has done so
    else if s.listening && !s.ended then some { s.clear with closed := true, handled := true }
    else some { s with closed := true }

end JobStream

/-- A request for the stream of a job, over the coordinators that work on it. -/
structure Watched where
  cluster : Cluster
  stream : JobStream

inductive WatchedAction where
  | cluster (a : Action)
  | stream (a : StreamAction)

namespace Watched

/-- The request for job `j` comes in. -/
def start (cluster : Cluster) (j : JobId) : Watched := ⟨cluster, .start (cluster.db.jobs.lookup j)⟩

/-- Only the cluster writes the row that the stream reads. -/
def step (j : JobId) : Runs.Step Watched WatchedAction := fun s a =>
  match a with
  | .cluster a => (Cluster.step s.cluster a).bind fun cluster =>
    (s.stream.step (.write (cluster.db.jobs.lookup j))).map fun stream => ⟨cluster, stream⟩
  | .stream (.write _) => none
  | .stream a => (s.stream.step a).map fun stream => { s with stream }

end Watched

end Dispatcher
