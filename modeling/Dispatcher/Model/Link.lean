import Dispatcher.Lib.Fifo
import Dispatcher.Model.Fleet
import Dispatcher.Model.Hub

namespace Dispatcher
open Tables

inductive SocketPhase where
  | connecting | opened | closed
  deriving DecidableEq

/-- One worker and the hub of one coordinator, with the messages between them. -/
structure Link where
  hub : HubProcess
  worker : WorkerService
  phase : SocketPhase
  /-- The sockets that the worker has made. -/
  sockets : List SocketId
  up : List (SocketId × WorkerToCoordMsg)
  down : List (SocketId × CoordToWorkerMsg)

namespace Link

inductive Action where
  /-- A step of the hub, other than a message of this worker. -/
  | hub (a : HubAction)
  | worker (e : WorkerEvent)
  /-- The hub gets the next message on a socket of the worker. -/
  | up (ws : SocketId) (ctx : Ctx)
  /-- The worker gets the next message on its socket; one that is closed brings no more. -/
  | down

/-- `WorkerReg` may hold rows of earlier sessions. -/
def init (workerId : WorkerId) (limit : Int) (db : Db)
    (workerReg : Table WorkerReg WorkerId WorkerReg.workerId) : Link where
  hub := { HubProcess.init db with workerReg }
  worker := .fresh workerId limit
  phase := .closed
  sockets := []
  up := []
  down := []

def fresh (l : Link) (ws : SocketId) : Bool :=
  ws ∉ l.sockets && l.hub.received.all fun m => m.1 ≠ ws

/-- Other clients have sockets and worker ids of their own. -/
def others (l : Link) : HubAction → Bool
  | .message ws (.workerHello workerId _) _ => ws ∉ l.sockets && workerId ≠ l.worker.workerId
  | .message ws _ _ => ws ∉ l.sockets
  | _ => true

/-- What an event does to the worker's socket; `none` where it cannot happen. -/
def moves (l : Link) : WorkerEvent → Option Link
  | .start ws =>
    if l.worker.ws = none ∧ l.fresh ws then
      some { l with phase := .connecting, sockets := l.sockets ++ [ws] }
    else none
  | .reconnect _ ws =>
    if l.fresh ws then some { l with phase := .connecting, sockets := l.sockets ++ [ws] } else none
  | .opened ws =>
    if l.worker.ws = some ws ∧ l.phase = .connecting then some { l with phase := .opened } else none
  | .closed ws =>
    if l.worker.ws = some ws ∧ l.phase ≠ .closed then some { l with phase := .closed } else none
  | .message _ => none
  | .stop | .completed .. | .threw .. | .fire _ => some l

def react (l : Link) (e : WorkerEvent) : Option Link :=
  (l.worker.handle e).map fun (worker, sends) =>
    { l with worker, up := l.up ++ Fleet.emitted worker sends }

def follow (l : Link) (hub : HubProcess) : Link :=
  { l with hub, down := l.down ++ hub.sent.drop l.hub.sent.length }

def step : Runs.Step Link Action := fun l a =>
  match a with
  | .hub a => if l.others a then (l.hub.step a).map l.follow else none
  | .worker e => (l.moves e).bind fun l => l.react e
  | .up ws ctx => (Fifo.take ws l.up).bind fun (msg, up) =>
    (l.hub.step (.message ws msg ctx)).map fun hub => { l with up }.follow hub
  | .down =>
    match l.worker.ws, l.phase with
    | some ws, .opened => (Fifo.take ws l.down).bind fun (msg, down) =>
      { l with down }.react (.message msg)
    | _, _ => none

end Link

end Dispatcher
