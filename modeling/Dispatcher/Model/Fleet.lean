import Dispatcher.Lib.Runs
import Dispatcher.Model.Cluster
import Dispatcher.Model.Worker

namespace Dispatcher

/-- The coordinators and their workers, with the messages between them. -/
structure Fleet where
  cluster : Cluster
  workers : List WorkerService

namespace Fleet

inductive Action where
  /-- A step of the coordinators; a `workerSend` is one of a client that is no
  `WorkerService`. -/
  | coordinator (a : Dispatcher.Action)
  | worker (i : Nat) (e : WorkerEvent)
  /-- Worker `i` gets the `k`-th message that the coordinators have sent, perhaps
  late, perhaps not for the first time, whatever socket it was sent on. -/
  | deliver (i k : Nat)

def init (configs : List (WorkerId × Int)) : Fleet :=
  ⟨.init, configs.map fun p => .fresh p.1 p.2⟩

/-- The messages of a worker's calls of `send` that go out. -/
def emitted (w : WorkerService) (sends : List WorkerToCoordMsg) :
    List (SocketId × WorkerToCoordMsg) :=
  match w.ws with
  | some ws => if w.wsOpen then sends.map fun msg => (ws, msg) else []
  | none => []

def react (f : Fleet) (i : Nat) (e : WorkerEvent) : Option Fleet :=
  ((f.workers[i]?).bind (·.handle e)).map fun (w, sends) =>
    { cluster := { f.cluster with wire := f.cluster.wire ++ emitted w sends }
      workers := f.workers.set i w }

def step : Runs.Step Fleet Action := fun f a =>
  match a with
  | .coordinator a => (Cluster.step f.cluster a).map fun cluster => { f with cluster }
  | .worker _ (.message _) => none
  | .worker i e => f.react i e
  | .deliver i k => (f.cluster.sent[k]?).bind fun (_, msg) => f.react i (.message msg)

end Fleet

end Dispatcher
