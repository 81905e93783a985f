import Dispatcher.Model.Deployment
import Dispatcher.Model.Fleet

namespace Dispatcher

/-- The coordinators and their workers, with the messages between them. -/
structure Installation where
  deployment : Deployment
  workers : List WorkerService

/-- The workers have written these messages. -/
def Deployment.hears (s : Deployment) (msgs : List (SocketId × WorkerToCoordMsg)) : Deployment :=
  { s with base := { s.base with wire := s.base.wire ++ msgs } }

namespace Installation

inductive Action where
  /-- A step of the coordinators; a `workerSend` is one of a client that is no
  `WorkerService`. -/
  | deployment (a : Deployment.Action)
  | worker (i : Nat) (e : WorkerEvent)
  /-- Worker `i` gets the `k`-th message that the coordinators have sent, perhaps
  late, perhaps not for the first time, whatever socket it was sent on. -/
  | deliver (i k : Nat)

def init (configs : List (WorkerId × Int)) : Installation :=
  ⟨.init, configs.map fun p => .fresh p.1 p.2⟩

def react (s : Installation) (i : Nat) (e : WorkerEvent) : Option Installation :=
  ((s.workers[i]?).bind (·.handle e)).map fun (w, sends) =>
    ⟨s.deployment.hears (Fleet.emitted w sends), s.workers.set i w⟩

def step : Runs.Step Installation Action := fun s a =>
  match a with
  | .deployment a => (Deployment.step s.deployment a).map fun deployment => { s with deployment }
  | .worker _ (.message _) => none
  | .worker i e => s.react i e
  | .deliver i k => (s.deployment.base.sent[k]?).bind fun (_, msg) => s.react i (.message msg)

end Installation

end Dispatcher
