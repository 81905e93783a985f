import Mathlib.Logic.Function.Basic
import Dispatcher.Model.DispatchLoop

namespace Dispatcher
open Tables

/-- A step of the clients, the routes and the reapers, which no hub has a part in. -/
def Action.apart : Action → Bool
  | .post .. | .delete .. | .workerSend .. | .reaperTick .. | .resume .. | .fail ..
  | .skipTokens _ => true
  | .receive .. | .deregister .. | .dispatchTick .. | .crash _ => false

namespace DispatchProcess

def idle (hub : HubProcess) : DispatchProcess := ⟨hub, [], [], false, .ended, [], []⟩

end DispatchProcess

namespace DispatchAction

def own : DispatchAction → Bool
  | .hub (.message ..) | .hub (.others _) => false
  | _ => true

def at_ (c : CoordinatorId) : DispatchAction → DispatchAction
  | .hub (.resume i ctx) => .hub (.resume i { ctx with coordinatorId := c })
  | .commit ctx => .commit { ctx with coordinatorId := c }
  | a => a

end DispatchAction

/-- Any number of coordinators over one database, each with its hub, its dispatch loop,
its routes and its reaper. -/
structure Deployment where
  /-- The database and the messages, with the handlers of the routes and the reapers. -/
  base : Cluster
  workerReg : Table WorkerReg WorkerId WorkerReg.workerId
  processes : CoordinatorId → DispatchProcess

namespace Deployment

inductive Action where
  | base (a : Dispatcher.Action)
  /-- The `k`-th message of the wire reaches the hub of coordinator `c`. -/
  | receive (c : CoordinatorId) (k : Nat) (ctx : Ctx)
  | process (c : CoordinatorId) (a : DispatchAction)
  /-- The timer of the dispatch loop fires, once the last tick is over. -/
  | tick (c : CoordinatorId) (isDispatchPaused isDbPartitioned : Bool)
  | crash (c : CoordinatorId)

def init : Deployment := ⟨.init, .empty, fun _ => .idle (.init .migrated)⟩

/-- The process of a coordinator, with the database as it is now. -/
def enter (s : Deployment) (c : CoordinatorId) : DispatchProcess :=
  let p := s.processes c
  { p with hub := { p.hub with db := s.base.db, workerReg := s.workerReg } }

/-- What the process leaves behind in the database and on its sockets. -/
def leave (s : Deployment) (c : CoordinatorId) (p : DispatchProcess) : Deployment where
  base := { s.base with
    db := p.hub.db
    sent := s.base.sent ++ p.hub.sent.drop (s.processes c).hub.sent.length }
  workerReg := p.hub.workerReg
  processes := Function.update s.processes c p

def step : Runs.Step Deployment Action := fun s a =>
  match a with
  | .base a =>
    if a.apart then (Cluster.step s.base a).map fun base => { s with base } else none
  | .receive c k ctx => (s.base.wire[k]?).bind fun (ws, msg) =>
    ((s.enter c).step (.hub (.message ws msg ctx))).map (s.leave c)
  | .process c a => if a.own then ((s.enter c).step (a.at_ c)).map (s.leave c) else none
  | .tick c isDispatchPaused isDbPartitioned =>
    match (s.processes c).point with
    | .ended => some (s.leave c (.tick isDispatchPaused isDbPartitioned (s.enter c).hub))
    | _ => none
  | .crash c => (Cluster.step s.base (.crash c)).map fun base =>
    { s with
      base
      processes := Function.update s.processes c (.idle (.init base.db)) }

end Deployment

end Dispatcher
