import Dispatcher.Deployment.Tracking
import Dispatcher.Lib.Progress
import Dispatcher.Proofs.DuplicateResults

namespace Dispatcher
open Runs Tables

namespace HubProcess

/-- One worker is connected, which has one slot, and no message is being handled. -/
structure Serving (ws : SocketId) (workerId : WorkerId) (inFlight : Nat) (s : HubProcess) : Prop where
  states : s.hub.states = [⟨ws, workerId, 1, inFlight⟩]
  workers : s.hub.workers.rows = [(workerId, 0)]
  opened : s.isOpen ws = true
  handlers : s.handlers = []

variable {ws : SocketId} {workerId : WorkerId} {inFlight : Nat} {s : HubProcess}

theorem Serving.openState (h : s.Serving ws workerId inFlight) :
    s.hub.openState s.isOpen workerId = some (0, ⟨ws, workerId, 1, inFlight⟩) := by
  simp [Hub.openState, Hub.get, Table.lookup, h.workers, h.states, h.opened]

theorem Serving.stateByWs (h : s.Serving ws workerId inFlight) : s.hub.stateByWs ws = some 0 := by
  simp [Hub.stateByWs, h.workers, h.states]

end HubProcess

namespace DispatchProcess

def fresh (db : Db) (workerReg : Table WorkerReg WorkerId WorkerReg.workerId) : DispatchProcess :=
  .idle { HubProcess.init db with workerReg }

/-- The coordinator is between two ticks, and its hub serves one worker. -/
structure Serving (ws : SocketId) (workerId : WorkerId) (inFlight : Nat) (p : DispatchProcess) :
    Prop where
  ended : p.point = .ended
  hub : p.hub.Serving ws workerId inFlight

variable {ws : SocketId} {workerId : WorkerId} {inFlight : Nat} {hub : HubProcess} {p : DispatchProcess}

/-- A tick with a worker that has room begins with its job. -/
theorem tick_serving (h : hub.Serving ws workerId 0) :
    tick false false hub = ⟨hub, [0], [], false, .transaction workerId, [], []⟩ := by
  have available : hub.hub.getAvailableWorkers hub.isOpen = [0] := by
    simp [Hub.getAvailableWorkers, h.workers, h.states, h.opened]
  simp [tick, available, advance, next, forWorkers, h.states]

/-- The worker has no room once it has its job. -/
theorem send_serving (h : p.hub.Serving ws workerId inFlight) (job : Dispatched) :
    (p.send workerId job).hub.Serving ws workerId (inFlight + 1) ∧
      (p.send workerId job).hub.db = p.hub.db ∧ (p.send workerId job).point = .returned true ∧
      (p.send workerId job).available = p.available ∧ (p.send workerId job).rest = p.rest := by
  simp only [send, Hub.sendJob, h.openState, and_self, and_true]
  refine ⟨?_, h.workers, h.opened, h.handlers⟩
  simp [Hub.modify, h.states]

/-- The loop ends where the one worker that it has captured has no room. -/
theorem advance_serving (h : p.hub.Serving ws workerId 1) (captured : p.available = [0])
    (rest : p.rest = []) : p.advance.Serving ws workerId 1 ∧ p.advance.hub = p.hub := by
  have full : p.next = none := by
    simp only [next, captured, rest, forWorkers, h.states]
    simp
  simp only [advance, full, and_true]
  exact ⟨rfl, h⟩

end DispatchProcess

def DispatchAction.reads : DispatchAction → Option Ctx
  | .hub (.message _ _ ctx) | .hub (.resume _ ctx) | .commit ctx => some ctx
  | _ => none

namespace Deployment

variable {s : Deployment} {c : CoordinatorId} {ws : SocketId} {now : Int} {workerId : WorkerId}
  {p : DispatchProcess}

/-- The step is one of coordinator `c`, at work on its own or on what the worker at
this socket has written, or one of that worker. The clocks are at `now`, and there is no chaos. -/
def By (c : CoordinatorId) (ws : SocketId) (now : Int) (e : Event Deployment Action) : Prop :=
  match e.action with
  | .base (.workerSend ws' _) => ws' = ws
  | .base (.reaperTick c' ctx) => c' = c ∧ ctx = .quiet c now
  | .base (.resume i ctx) => (e.before.base.tasks[i]?).map Prod.fst = some c ∧ ctx = .quiet c now
  | .base _ => False
  | .receive c' k ctx =>
    c' = c ∧ (e.before.base.wire[k]?).map Prod.fst = some ws ∧ ctx = .quiet c now
  | .process c' a => c' = c ∧ a.reads.getD (.quiet c now) = .quiet c now
  | .tick c' isDispatchPaused isDbPartitioned =>
    c' = c ∧ isDispatchPaused = false ∧ isDbPartitioned = false
  | .crash c' => c' = c

theorem enter_leave (s : Deployment) (c : CoordinatorId) (p : DispatchProcess) :
    (s.leave c p).enter c = p := by
  simp only [enter, leave, Function.update_self]

/-- A step of the process can be taken by the deployment. -/
theorem leads_own {a : DispatchAction} (taken : (s.enter c).step a = some p) (own : a.own = true)
    (here : a.at_ c = a) (reads : a.reads.getD (.quiet c now) = .quiet c now) :
    Leads step (By c ws now) s fun t => t.enter c = p := by
  have steps : step s (.process c a) = some (s.leave c p) := by
    simp only [step, own, here, taken, ↓reduceIte, Option.map_some]
  exact .one steps ⟨rfl, reads⟩ (enter_leave s c p)

/-- The worker writes a message, and the coordinator reads it. -/
theorem leads_told (msg : WorkerToCoordMsg)
    (taken : (s.enter c).step (.hub (.message ws msg (.quiet c now))) = some p) :
    Leads step (By c ws now) s fun t => t.enter c = p := by
  let u : Deployment := { s with base := { s.base with wire := s.base.wire ++ [(ws, msg)] } }
  have written : step s (.base (.workerSend ws msg)) = some u := rfl
  have last : u.base.wire[s.base.wire.length]? = some (ws, msg) := by simp [u]
  have read : step u (.receive c s.base.wire.length (.quiet c now)) = some (u.leave c p) := by
    have same : u.enter c = s.enter c := rfl
    simp only [step, last, same, taken, Option.bind_some, Option.map_some]
  have wrote : Leads step (By c ws now) s fun t => t = u := .one written rfl rfl
  refine wrote.trans fun t same => same ▸ .one read ⟨rfl, ?_, rfl⟩ (enter_leave u c p)
  simp only [last, Option.map_some]

/-- The timer can fire between two ticks. -/
theorem leads_tick (ended : (s.enter c).point = .ended) :
    Leads step (By c ws now) s fun t => t.enter c = .tick false false (s.enter c).hub := by
  have steps : step s (.tick c false false) = some (s.leave c (.tick false false (s.enter c).hub)) := by
    have now : (s.processes c).point = .ended := ended
    simp only [step, now]
  exact .one steps ⟨rfl, rfl, rfl⟩ (enter_leave _ _ _)

/-- The coordinator is started again, and its reaper runs once. -/
theorem leads_restarted (s : Deployment) (c : CoordinatorId) (ws : SocketId) (now : Int) :
    Leads step (By c ws now) s fun t => ∃ workerReg,
      t.enter c = .fresh (reaperTx (.quiet c now) (now + 0) s.base.db) workerReg := by
  let base : Cluster := { s.base with
    tasks := s.base.tasks.filter fun p => p.1 ≠ c
    registry := s.base.registry.filter fun r => r.coordinatorId ≠ c }
  let u : Deployment := { s with
    base
    processes := Function.update s.processes c (.idle (.init base.db)) }
  have crashed : Leads step (By c ws now) s fun t => t = u := .one (a := .crash c) rfl rfl rfl
  let v : Deployment := { u with base := base.spawn c [.reaperTx (now + 0)] }
  have ticked : Leads step (By c ws now) u fun t => t = v :=
    .one (a := .base (.reaperTick c (.quiet c now))) rfl ⟨rfl, rfl⟩ rfl
  have last : v.base.tasks[base.tasks.length]? = some (c, .reaperTx (now + 0)) := by
    simp [v, Cluster.spawn]
  let o : Outcome := { db := reaperTx (.quiet c now) (now + 0) s.base.db }
  let t : Deployment := { v with base := v.base.finish base.tasks.length c o }
  have reaped : step v (.base (.resume base.tasks.length (.quiet c now))) = some t := by
    simp only [step, Action.apart, Cluster.step, last, ↓reduceIte, Option.map_some]
    rfl
  have entered : t.enter c = .fresh t.base.db s.workerReg := by
    simp only [enter, t, v, u, Function.update_self]
    rfl
  refine crashed.trans fun _ same => same ▸ ticked.trans fun _ same => same ▸ .one reaped ?_ ⟨_, entered⟩
  simp only [By, last, Option.map_some, and_self]

/-- A worker with one slot connects to a coordinator that nobody else is connected to. -/
theorem leads_greeted {db : Db} {workerReg : Table WorkerReg WorkerId WorkerReg.workerId}
    (workerId : WorkerId) (h : s.enter c = .fresh db workerReg) : Leads step (By c ws now) s fun t =>
      (t.enter c).Serving ws workerId 0 ∧ (t.enter c).hub.db = db := by
  let p : DispatchProcess := .fresh db workerReg
  let connected : DispatchProcess := { p with hub := { p.hub with opened := [ws] } }
  let greeted (returned : Bool) : DispatchProcess := { connected with
    hub := { connected.hub with
      received := [(ws, .workerHello workerId 1)]
      ids := [(ws, workerId)]
      handlers := [.onHello ws workerId 1 returned] } }
  let written : DispatchProcess := { greeted true with
    hub := { (greeted true).hub with
      workerReg := ((greeted false).hub.upsert workerId 1).workerReg } }
  let registered : DispatchProcess := { written with
    hub := { written.hub with handlers := [] }.register ws workerId 1 }
  have opens : Leads step (By c ws now) s fun t => t.enter c = connected :=
    leads_own (a := .hub (.connection ws)) (h ▸ rfl) rfl rfl rfl
  refine opens.trans fun t at_ => ?_
  have tells : Leads step (By c ws now) t fun t => t.enter c = greeted false :=
    leads_told (.workerHello workerId 1) (at_ ▸ rfl)
  refine tells.trans fun t at_ => ?_
  have writes : Leads step (By c ws now) t fun t => t.enter c = written :=
    leads_own (a := .hub (.write 0)) (at_ ▸ rfl) rfl rfl rfl
  refine writes.trans fun t at_ => ?_
  have registers : Leads step (By c ws now) t fun t => t.enter c = registered :=
    leads_own (a := .hub (.resume 0 (.quiet c now))) (at_ ▸ rfl) rfl rfl rfl
  refine registers.mono fun t at_ => ?_
  rw [at_]
  refine ⟨⟨rfl, rfl, rfl, ?_, rfl⟩, rfl⟩
  exact decide_eq_true (List.mem_singleton.mpr rfl)

variable {job : Dispatched} {db : Db}

/-- A tick whose transaction takes a job gives it to the worker, and ends. -/
theorem leads_dispatched (h : (s.enter c).Serving ws workerId 0)
    (takes : tryDispatchOneTx (.quiet c now) workerId (s.enter c).hub.db = .ok (some job, db)) :
    Leads step (By c ws now) s fun t => (t.enter c).Serving ws workerId 1 ∧ (t.enter c).hub.db = db := by
  let taking : DispatchProcess := ⟨(s.enter c).hub, [0], [], false, .transaction workerId, [], []⟩
  let committed : DispatchProcess := { taking with
    hub := { taking.hub with db }
    leases := [(workerId, job)]
    point := .committed workerId (some job) }
  have ticks : Leads step (By c ws now) s fun t => t.enter c = taking :=
    (leads_tick h.ended).mono fun t at_ => at_.trans (DispatchProcess.tick_serving h.hub)
  refine ticks.trans fun t at_ => ?_
  have commits : Leads step (By c ws now) t fun t => t.enter c = committed := by
    refine leads_own (a := .commit (.quiet c now)) ?_ rfl rfl rfl
    rw [at_]
    simp only [DispatchProcess.step, taking, takes, committed, List.nil_append]
  refine commits.trans fun t at_ => ?_
  have resumes : Leads step (By c ws now) t fun t => t.enter c = committed.send workerId job :=
    leads_own (a := .resume) (by rw [at_]; rfl) rfl rfl rfl
  have served : committed.hub.Serving ws workerId 0 :=
    ⟨h.hub.states, h.hub.workers, h.hub.opened, h.hub.handlers⟩
  obtain ⟨busy, stored, returned, captured, rest⟩ := DispatchProcess.send_serving served job
  refine resumes.trans fun t at_ => ?_
  generalize committed.send workerId job = sent at *
  have turns : Leads step (By c ws now) t fun t =>
      t.enter c = { sent with anyDispatched := true }.advance := by
    refine leads_own (a := .turn) ?_ rfl rfl rfl
    rw [at_]
    simp only [DispatchProcess.step, returned]
  refine turns.mono fun t at_ => ?_
  obtain ⟨serving, hub⟩ := DispatchProcess.advance_serving (p := { sent with anyDispatched := true })
    busy captured rest
  rw [at_]
  exact ⟨serving, (congrArg HubProcess.db hub).trans stored⟩

/-- The result of the lease's own worker, told to its coordinator, is accepted. -/
theorem leads_concluded (h : (s.enter c).Serving ws workerId 1) (msg : JobResult)
    (held : (s.enter c).hub.db.holds msg.jobId workerId msg.token = true)
    (dispatched : (s.enter c).hub.db.statusOf msg.jobId = some .dispatched) :
    Leads step (By c ws now) s fun t => (t.enter c).Serving ws workerId 0 ∧
      (t.enter c).hub.db = (onResultTx (.quiet c now) workerId msg (s.enter c).hub.db).2 := by
  obtain ⟨ended, serving⟩ := h
  generalize entered : s.enter c = p at *
  let heard : HubProcess := { p.hub with received := p.hub.received ++ [(ws, .jobResult msg)] }
  let at_ (task : Task) : DispatchProcess := { p with
    hub := { heard with handlers := [.onMessage p.hub.received.length (some 0) false task] } }
  have tells : Leads step (By c ws now) s fun t => t.enter c = at_ (.resultLookup ws workerId msg) := by
    refine leads_told (.jobResult msg) ?_
    simp only [entered, DispatchProcess.step, HubProcess.step, serving.stateByWs, serving.states,
      serving.handlers]
    simp [onMessage, at_, heard]
  refine tells.trans fun t here => ?_
  have looks : Leads step (By c ws now) t fun t => t.enter c = at_ (.resultTx ws workerId msg) := by
    refine leads_own (a := .hub (.resume 0 (.quiet c now))) ?_ rfl rfl rfl
    rw [here]
    simp only [DispatchProcess.step, HubProcess.step, at_, List.getElem?_cons_zero, heard,
      lookup_current held, HubProcess.finish, List.append_nil]
    rfl
  refine looks.trans fun t here => ?_
  let acked : DispatchProcess := { p with
    hub := { heard with
      hub := p.hub.hub.settle 0
      handlers := []
      db := (onResultTx (.quiet c now) workerId msg p.hub.db).2
      sent := p.hub.sent ++ [(ws, .jobAck msg.jobId)] } }
  have accepts : Leads step (By c ws now) t fun t => t.enter c = acked := by
    refine leads_own (a := .hub (.resume 0 (.quiet c now))) ?_ rfl rfl rfl
    let hub := (at_ (.resultTx ws workerId msg)).hub
    let ctx : Ctx := { Ctx.quiet c now with wsOpen := (Task.resultTx ws workerId msg).socket.any hub.isOpen }
    have accepted : (Task.resultTx ws workerId msg).resume ctx (fun _ => none) hub.db = _ :=
      tx_accepted held dispatched serving.opened
    rw [here]
    exact congrArg (fun o => some { p with
      hub := hub.finish 0 p.hub.received.length (some 0) false true o }) accepted
  refine accepts.mono fun t here => ?_
  rw [here]
  refine ⟨⟨ended, ?_, serving.workers, serving.opened, rfl⟩, rfl⟩
  simp [acked, Hub.settle, Hub.modify, serving.states]

end Deployment

end Dispatcher
