import Dispatcher.Lib.RoundRobin
import Dispatcher.Model.Hub

namespace Dispatcher
open RoundRobin

/-- What a tick of `DispatchService` works on when nothing else runs. -/
structure Tick where
  db : Db
  hub : Hub
  sent : List (SocketId × CoordToWorkerMsg)
  /-- The dispatches that were committed, in order, each with its worker. -/
  dispatched : List (WorkerId × Dispatched)

namespace Tick

def start (db : Db) (hub : Hub) : Tick := ⟨db, hub, [], []⟩

/-- `DispatchService.tryDispatchOne`. The `n`-th transaction reads `ctx n`. -/
def tryDispatchOne (ctx : Nat → Ctx) (isOpen : SocketId → Bool) (workerId : WorkerId) (s : Tick) :
    Except PgError (Bool × Tick) :=
  match tryDispatchOneTx (ctx s.dispatched.length) workerId s.db with
  | .error e => .error e
  | .ok (none, db) => .ok (false, { s with db })
  | .ok (some job, db) =>
    let (_, hub, sent) := s.hub.sendJob isOpen workerId
      ⟨job.jobId, job.token, job.payload, DISPATCH_LEASE_TTL_MS⟩
    .ok (true, { db, hub, sent := s.sent ++ sent, dispatched := s.dispatched ++ [(workerId, job)] })

/-- The `for` loop over the workers that are left: `return`, or on with `anyDispatched`. -/
def forWorkers (ctx : Nat → Ctx) (isOpen : SocketId → Bool) :
    List StateRef → Bool → Tick → Except PgError (Pass × Tick)
  | [], anyDispatched, s => .ok (.done anyDispatched, s)
  | worker :: rest, anyDispatched, s =>
    match s.hub.states[worker]? with
    | none => forWorkers ctx isOpen rest anyDispatched s
    | some state =>
      if state.concurrencyLimit ≤ (state.inFlight : Int) then
        forWorkers ctx isOpen rest anyDispatched s
      else match tryDispatchOne ctx isOpen state.workerId s with
        | .error e => .error e
        | .ok (false, s) => .ok (.returned, s)
        | .ok (true, s) => forWorkers ctx isOpen rest true s

/-- The `do ... while (anyDispatched)` loop; `none` when the fuel runs out. -/
def doWhile (ctx : Nat → Ctx) (isOpen : SocketId → Bool) (available : List StateRef) :
    Nat → Tick → Option (Except PgError Tick)
  | 0, _ => none
  | fuel + 1, s => match forWorkers ctx isOpen available false s with
    | .error e => some (.error e)
    | .ok (.returned, s) => some (.ok s)
    | .ok (.done true, s) => doWhile ctx isOpen available fuel s
    | .ok (.done false, s) => some (.ok s)

/-- `DispatchService.tick`, with the two chaos checks it starts with. -/
def tick (isDispatchPaused isDbPartitioned : Bool) (ctx : Nat → Ctx) (isOpen : SocketId → Bool)
    (fuel : Nat) (s : Tick) : Option (Except PgError Tick) :=
  if isDispatchPaused then some (.ok s)
  else if isDbPartitioned then some (.ok s)
  else match s.hub.getAvailableWorkers isOpen with
    | [] => some (.ok s)
    | available => doWhile ctx isOpen available fuel s

end Tick

end Dispatcher
