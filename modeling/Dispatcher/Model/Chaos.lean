import Dispatcher.Model.Routes
import Dispatcher.Model.Stats

namespace Dispatcher

inductive ChaosAction where
  | pauseDispatch | resumeDispatch | dropAcks | partitionDb | restoreDb | clockSkew
  deriving DecidableEq

def ChaosAction.text : ChaosAction → String
  | .pauseDispatch => "pause_dispatch"
  | .resumeDispatch => "resume_dispatch"
  | .dropAcks => "drop_acks"
  | .partitionDb => "partition_db"
  | .restoreDb => "restore_db"
  | .clockSkew => "clock_skew"

def VALID_FAULTS : List ChaosAction :=
  [.pauseDispatch, .resumeDispatch, .dropAcks, .partitionDb, .restoreDb, .clockSkew]

/-- The `params` of a fault, each a whole number or absent. -/
structure ChaosParams where
  ms : Option Int := none
  n : Option Int := none
  seconds : Option Int := none

structure ChaosService where
  /-- The millisecond until which the fault is active; 0 is inactive. -/
  dispatchPausedUntil : Int := 0
  dropAcksRemaining : Int := 0
  dbPartitionedUntil : Int := 0
  clockSkewMs : Int := 0

namespace ChaosService

/-- `now` is what `Date.now()` returns. -/
def apply (now : Int) (action : ChaosAction) (params : ChaosParams) (chaos : ChaosService) :
    ChaosService :=
  match action with
  | .pauseDispatch => { chaos with dispatchPausedUntil := now + params.ms.getD 0 }
  | .resumeDispatch => { chaos with dispatchPausedUntil := 0 }
  | .dropAcks => { chaos with dropAcksRemaining := params.n.getD 0 }
  | .partitionDb => { chaos with dbPartitionedUntil := now + params.ms.getD 0 }
  | .restoreDb => { chaos with dbPartitionedUntil := 0 }
  | .clockSkew => { chaos with clockSkewMs := params.seconds.getD 0 * 1000 }

def isDispatchPaused (now : Int) (chaos : ChaosService) : Bool := now < chaos.dispatchPausedUntil

def isDbPartitioned (now : Int) (chaos : ChaosService) : Bool := now < chaos.dbPartitionedUntil

def consumeDropAck (chaos : ChaosService) : Bool × ChaosService :=
  if chaos.dropAcksRemaining ≤ 0 then (false, chaos)
  else (true, { chaos with dropAcksRemaining := chaos.dropAcksRemaining - 1 })

def getState (now : Int) (chaos : ChaosService) : ChaosState where
  dispatchPaused := chaos.isDispatchPaused now
  dropAcksRemaining := chaos.dropAcksRemaining
  dbPartitioned := chaos.isDbPartitioned now
  clockSkewMs := chaos.clockSkewMs

end ChaosService

/-- The fault of a request body, if it is in `VALID_FAULTS`. -/
def validFault : Option Json → Option ChaosAction
  | some (.str name) => VALID_FAULTS.find? fun a => a.text = name
  | _ => none

/-- `POST /chaos`. An absent `fault` is `none`. -/
def postChaos (now : Int) (fault : Option Json) (params : ChaosParams) (chaos : ChaosService) :
    RouteAnswer ChaosState × ChaosService :=
  match validFault fault with
  | none =>
    let names := ", ".intercalate (VALID_FAULTS.map ChaosAction.text)
    (⟨validationError s!"invalid fault — must be one of: {names}", none, []⟩, chaos)
  | some action =>
    let chaos := chaos.apply now action params
    (⟨makeResponse 200 true "chaos applied" .empty (some .ok), some (chaos.getState now), []⟩, chaos)

/-- The await is on a query or a transaction. -/
def Task.queries : Task → Bool
  | .dispatchSend .. => false
  | _ => true

def Task.dispatches : Task → Bool
  | .dispatchTx .. | .dispatchSend .. => true
  | _ => false

/-- The handlers that a step leaves suspended, in their order. -/
def Cluster.remaining (s : Cluster) : Action → List (CoordinatorId × Task)
  | .resume i _ | .fail i _ => s.tasks.eraseIdx i
  | .crash c => s.tasks.filter fun p => p.1 ≠ c
  | _ => s.tasks

/-- The cluster with the chaos service of every coordinator, under one wall clock. -/
structure Chaotic where
  cluster : Cluster
  /-- The queries under way that are no await of the cluster's handlers: those of the GET
  routes, of `onPong` and of `setConcurrency`. -/
  queries : List CoordinatorId
  chaos : CoordinatorId → ChaosService
  /-- A tick of the coordinator's dispatch loop is under way. -/
  ticking : CoordinatorId → Bool
  nowMs : Int

inductive ChaoticAction where
  | cluster (a : Action)
  /-- A query of `queries` is issued, and the `i`-th one is over. -/
  | query (c : CoordinatorId)
  | answer (i : Nat)
  | chaos (c : CoordinatorId) (fault : Option Json) (params : ChaosParams)
  | beginTick (c : CoordinatorId)
  | endTick (c : CoordinatorId)
  | elapse (ms : Nat)

namespace Chaotic

def init (nowMs : Int) : Chaotic := ⟨.init, [], fun _ => {}, fun _ => false, nowMs⟩

def setChaos (s : Chaotic) (c : CoordinatorId) (chaos : ChaosService) : Chaotic :=
  { s with chaos := fun d => if d = c then chaos else s.chaos d }

def isDbPartitioned (s : Chaotic) (c : CoordinatorId) : Bool := (s.chaos c).isDbPartitioned s.nowMs

def isDispatchPaused (s : Chaotic) (c : CoordinatorId) : Bool := (s.chaos c).isDispatchPaused s.nowMs

/-- What the step reads of the clock and of the chaos service of `c`. -/
def reads (s : Chaotic) (c : CoordinatorId) (ctx : Ctx) : Bool :=
  ctx.nowMs = s.nowMs && ctx.skewMs = (s.chaos c).clockSkewMs

def dispatching (s : Chaotic) (c : CoordinatorId) : Bool :=
  s.cluster.tasks.any fun p => p.1 = c && p.2.dispatches

/-- What the chaos services let the cluster do. -/
def permits (s : Chaotic) : Action → Bool
  | .post .. | .delete .. | .workerSend .. | .deregister .. | .crash _ | .skipTokens _ => true
  | .receive c _ ctx => s.reads c ctx
  | .dispatchTick c _ => s.ticking c && !s.dispatching c
  | .reaperTick c ctx => !s.isDbPartitioned c && s.reads c ctx
  | .resume i ctx => (s.cluster.tasks[i]?).all fun p =>
      s.reads p.1 ctx && ctx.dropAck = (s.chaos p.1).consumeDropAck.1
  | .fail i _ => (s.cluster.tasks[i]?).all fun p => p.2.queries

def accepts (s : Chaotic) : Action → Option CoordinatorId
  | .resume i ctx => match s.cluster.tasks[i]? with
    | some (c, .resultTx _ workerId msg) =>
      if (onResultTx { ctx with coordinatorId := c } workerId msg s.cluster.db).1 then some c else none
    | _ => none
  | _ => none

def crashes (a : Action) (c : CoordinatorId) : Bool :=
  match a with
  | .crash d => d = c
  | _ => false

/-- The process of `c` ends. Its faults are forgotten. -/
def down (s : Chaotic) (c : CoordinatorId) : Chaotic :=
  { s with
    cluster := { s.cluster with
      tasks := s.cluster.tasks.filter fun p => p.1 ≠ c
      registry := s.cluster.registry.filter fun r => r.coordinatorId ≠ c }
    queries := s.queries.filter fun d => d ≠ c
    chaos := fun d => if d = c then {} else s.chaos d
    ticking := fun d => d ≠ c && s.ticking d }

/-- After a step of the cluster. An accepted result has asked whether to drop its ack. -/
def after (s : Chaotic) (a : Action) (cluster : Cluster) : Chaotic :=
  let s' := { s with
    cluster
    chaos := fun c => if s.accepts a = some c then (s.chaos c).consumeDropAck.2 else s.chaos c }
  match a with
  | .crash c => s'.down c
  | _ => s'

/-- The coordinators that a step makes ask `pool.connect` for a connection: those of the
handlers that it brings to a query. -/
def connects (s : Chaotic) : ChaoticAction → List CoordinatorId
  | .cluster a => match Cluster.step s.cluster a with
    | some cluster => ((cluster.tasks.drop (s.cluster.remaining a).length).filter
        fun p => p.2.queries).map Prod.fst
    | none => []
  | .query c => [c]
  | _ => []

/-- `installDbPartitionGuard`. The driver passes `pool.connect` a callback and drops the
promise that it returns, so that a rejection is unhandled and ends the process. -/
def refused (s : Chaotic) (a : ChaoticAction) : Option CoordinatorId :=
  (s.connects a).find? s.isDbPartitioned

def guarded (s : Chaotic) (a : ChaoticAction) (s' : Chaotic) : Chaotic :=
  match s.refused a with
  | some c => s'.down c
  | none => s'

def step : Runs.Step Chaotic ChaoticAction := fun s a =>
  match a with
  | .cluster b =>
    if s.permits b then (Cluster.step s.cluster b).map fun cluster => s.guarded a (s.after b cluster)
    else none
  | .query c => some (s.guarded a { s with queries := s.queries ++ [c] })
  | .answer i => if i < s.queries.length then some { s with queries := s.queries.eraseIdx i } else none
  | .chaos c fault params => some (s.setChaos c (postChaos s.nowMs fault params (s.chaos c)).2)
  | .beginTick c =>
    if !s.ticking c && !s.isDispatchPaused c && !s.isDbPartitioned c then
      some { s with ticking := fun d => d = c || s.ticking d }
    else none
  | .endTick c =>
    if s.ticking c && !s.dispatching c then
      some { s with ticking := fun d => d ≠ c && s.ticking d }
    else none
  | .elapse ms => some { s with nowMs := s.nowMs + ms }

end Chaotic

end Dispatcher
