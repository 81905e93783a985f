import Dispatcher.Model.Dispatch

namespace Dispatcher
open Runs

def HubProcess.ready (s : HubProcess) (workerId : WorkerId) : Bool :=
  (s.hub.openState s.isOpen workerId).any fun (_, state) =>
    (state.inFlight : Int) < state.concurrencyLimit

/-- Where a tick of `DispatchService` is suspended. -/
inductive TickPoint where
  /-- In the transaction of `tryDispatchOne`. -/
  | transaction (workerId : WorkerId)
  /-- The transaction has returned, with the job that it dispatched. -/
  | committed (workerId : WorkerId) (dispatched : Option Dispatched)
  /-- `tryDispatchOne` has returned. -/
  | returned (dispatched : Bool)
  | ended

/-- A tick of `DispatchService` among the handlers of the hub. -/
structure DispatchProcess where
  hub : HubProcess
  /-- The `WorkerState` objects that the tick has captured. -/
  available : List StateRef
  /-- Those that the `for` loop has still to come to. -/
  rest : List StateRef
  anyDispatched : Bool
  point : TickPoint
  /-- The leases that the tick has created, each with its worker. -/
  leases : List (WorkerId × Dispatched)
  /-- What `sendJob` has returned, in order. -/
  sends : List (WorkerId × Bool)

inductive DispatchAction where
  /-- Anything else that the hub does. -/
  | hub (a : HubAction)
  /-- The transaction of the tick commits, or fails. -/
  | commit (ctx : Ctx)
  | fail
  /-- `tryDispatchOne` goes on after its transaction. -/
  | resume
  /-- The loop goes on after `tryDispatchOne`. -/
  | turn

namespace DispatchProcess

/-- The `for` loop up to the first worker that has room, with those after it. -/
def forWorkers (hub : Hub) : List StateRef → Option (WorkerState × List StateRef)
  | [] => none
  | worker :: rest =>
    match hub.states[worker]? with
    | none => forWorkers hub rest
    | some state =>
      if state.concurrencyLimit ≤ (state.inFlight : Int) then forWorkers hub rest
      else some (state, rest)

/-- The worker whose job the loop asks for next, in this pass or in another one. -/
def next (s : DispatchProcess) : Option (WorkerState × List StateRef × Bool) :=
  match forWorkers s.hub.hub s.rest with
  | some (state, rest) => some (state, rest, s.anyDispatched)
  | none =>
    if s.anyDispatched then
      (forWorkers s.hub.hub s.available).map fun (state, rest) => (state, rest, false)
    else none

/-- The loop up to its next await. -/
def advance (s : DispatchProcess) : DispatchProcess :=
  match s.next with
  | some (state, rest, anyDispatched) =>
    { s with rest, anyDispatched, point := .transaction state.workerId }
  | none => { s with rest := [], anyDispatched := false, point := .ended }

/-- `DispatchService.tick`, up to its first await. -/
def tick (isDispatchPaused isDbPartitioned : Bool) (hub : HubProcess) : DispatchProcess :=
  if isDispatchPaused || isDbPartitioned then ⟨hub, [], [], false, .ended, [], []⟩
  else
    let available := hub.hub.getAvailableWorkers hub.isOpen
    advance ⟨hub, available, available, false, .ended, [], []⟩

def send (s : DispatchProcess) (workerId : WorkerId) (job : Dispatched) : DispatchProcess :=
  let (sent, hub, msgs) := s.hub.hub.sendJob s.hub.isOpen workerId
    ⟨job.jobId, job.token, job.payload, DISPATCH_LEASE_TTL_MS⟩
  { s with
    hub := { s.hub with hub, sent := s.hub.sent ++ msgs }
    sends := s.sends ++ [(workerId, sent)]
    point := .returned true }

def step : Runs.Step DispatchProcess DispatchAction := fun s a =>
  match a, s.point with
  -- nothing but the tick calls `sendJob`
  | .hub (.sendJob ..), _ => none
  | .hub a, _ => (s.hub.step a).map fun hub => { s with hub }
  | .commit ctx, .transaction workerId =>
    match tryDispatchOneTx ctx workerId s.hub.db with
    | .error _ => some { s with point := .ended }
    | .ok (none, db) => some { s with
        hub := { s.hub with db }
        point := .committed workerId none }
    | .ok (some job, db) => some { s with
        hub := { s.hub with db }
        leases := s.leases ++ [(workerId, job)]
        point := .committed workerId (some job) }
  | .fail, .transaction _ => some { s with point := .ended }
  | .resume, .committed _ none => some { s with point := .returned false }
  | .resume, .committed workerId (some job) => some (s.send workerId job)
  | .turn, .returned false => some { s with point := .ended }
  | .turn, .returned true => some { s with anyDispatched := true }.advance
  | _, _ => none

end DispatchProcess

end Dispatcher
