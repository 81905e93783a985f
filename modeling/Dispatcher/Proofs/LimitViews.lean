import Dispatcher.Link.InStep

namespace Dispatcher
open Tables Runs Overwrites

namespace Link

variable {l l' : Link} {ws : SocketId} {workerId : WorkerId}

theorem react_hub {e : WorkerEvent} (h : l.react e = some l') : l'.hub = l.hub := by
  obtain ⟨_, _, rfl⟩ := Option.map_eq_some_iff.mp h
  rfl

theorem moves_hub {e : WorkerEvent} (h : l.moves e = some l') : l'.hub = l.hub := by
  cases e with
  | start | reconnect | opened | closed =>
    obtain ⟨_, heq⟩ := Option.ite_none_right_eq_some.mp h
    cases heq
    rfl
  | message => cases h
  | stop | completed | threw | fire =>
    cases h
    rfl

def Action.hubAction (l : Link) : Action → Option HubAction
  | .hub a => some a
  | .up ws ctx => (Fifo.take ws l.up).map fun p => .message ws p.1 ctx
  | .worker _ | .down => none

/-- A step of the link is at most one step of its hub. -/
theorem step_hub {a : Action} (h : step l a = some l') :
    (∃ b, a.hubAction l = some b ∧ l.hub.step b = some l'.hub) ∨ l'.hub = l.hub := by
  cases a with
  | hub a =>
    obtain ⟨_, taken⟩ := Option.ite_none_right_eq_some.mp h
    obtain ⟨hub, hub_step, rfl⟩ := Option.map_eq_some_iff.mp taken
    exact .inl ⟨a, rfl, hub_step⟩
  | up ws ctx =>
    obtain ⟨⟨msg, up⟩, taken, handled⟩ := Option.bind_eq_some_iff.mp h
    obtain ⟨hub, hub_step, rfl⟩ := Option.map_eq_some_iff.mp handled
    exact .inl ⟨.message ws msg ctx, by simp [Action.hubAction, taken], hub_step⟩
  | worker e =>
    obtain ⟨moved, moves, reacted⟩ := Option.bind_eq_some_iff.mp h
    exact .inr ((react_hub reacted).trans (moves_hub moves))
  | down =>
    simp only [step] at h
    split at h
    next =>
      obtain ⟨_, _, reacted⟩ := Option.bind_eq_some_iff.mp h
      have same := react_hub reacted
      exact .inr same
    next => cases h

/-- The hub's part of a step keeps the order of the worker's writes and registrations. -/
def InOrder (workerId : WorkerId) (e : Event Link Action) : Prop :=
  ∀ a ∈ e.action.hubAction e.before, HubProcess.Ordered workerId ⟨e.before.hub, a, e.after.hub⟩

instance (workerId : WorkerId) (e : Event Link Action) : Decidable (InOrder workerId e) :=
  inferInstanceAs (Decidable (∀ a ∈ e.action.hubAction e.before,
    HubProcess.Ordered workerId ⟨e.before.hub, a, e.after.hub⟩))

theorem init_inStep (workerId : WorkerId) (limit : Int) (db : Db)
    (workerReg : Table WorkerReg WorkerId WorkerReg.workerId) :
    (init workerId limit db workerReg).InStep where
  registered := List.nil_subset _
  greeted _ greets := absurd rfl greets
  controlled _ left := absurd rfl left
  up _ hm := by cases hm
  socket _ hw := by cases hw
  current _ hw := by cases hw

theorem init_agreeing (workerId : WorkerId) (limit : Int) (db : Db)
    (workerReg : Table WorkerReg WorkerId WorkerReg.workerId) :
    (init workerId limit db workerReg).hub.Agreeing workerId where
  agree _ hl := by cases hl
  order := .nil

theorem run_inStep {limit : Int} {db : Db}
    {workerReg : Table WorkerReg WorkerId WorkerReg.workerId} {es : List (Event Link Action)}
    (run : Run step (init workerId limit db workerReg) es l) : l.InStep :=
  Reachable.invariant ⟨es, run⟩ (init_inStep workerId limit db workerReg) fun _ _ _ h hs => h.step hs

/-- In order, the row and the entry agree from start to end. -/
theorem run_agreeing {limit : Int} {db : Db}
    {workerReg : Table WorkerReg WorkerId WorkerReg.workerId} {es : List (Event Link Action)}
    (run : Run step (init workerId limit db workerReg) es l)
    (ordered : ∀ e ∈ es, InOrder workerId e) : l.hub.Agreeing workerId := by
  induction run with
  | nil => exact init_agreeing workerId limit db workerReg
  | snoc run taken ih =>
    have before := ih fun e he => ordered e (List.mem_append_left _ he)
    have ok := ordered _ (List.mem_append_right _ (List.mem_singleton_self _))
    rcases step_hub taken with ⟨b, hb, hub_step⟩ | same
    · exact before.step hub_step (ok b hb)
    · rw [same]
      exact before

end Link

def Handler.owner : Handler → Option WorkerId
  | .onHello _ workerId _ _ | .setConcurrency workerId _ _ => some workerId
  | .onMessage .. => none

namespace Link

variable {l : Link} {ws : SocketId} {workerId : WorkerId}

/-- No handler of the worker is suspended, and no new limit is under way on its current
socket, which the hub has registered. A message to a socket that the worker has closed
stays under way. -/
structure AtRest (workerId : WorkerId) (ws : SocketId) (l : Link) : Prop where
  idle : ∀ handler ∈ l.hub.handlers, handler.owner ≠ some workerId
  socket : l.worker.ws = some ws
  registered : ((l.hub.hub.get workerId).bind (l.hub.hub.states[·]?)).map WorkerState.ws = some ws
  controls : l.controlsOn ws = []

/-- The views of the hub, of `WorkerReg` and of the worker itself are one. -/
def Agreed (workerId : WorkerId) (l : Link) : Prop :=
  l.hub.hubLimit workerId = some l.worker.concurrencyLimit ∧
    l.hub.regLimit workerId = some l.worker.concurrencyLimit

/-- The hub's view needs no order: the socket has one. -/
theorem hub_agrees (h : l.InStep) (rest : l.AtRest workerId ws) :
    l.hub.hubLimit workerId = some l.worker.concurrencyLimit := by
  obtain ⟨state, found, socket⟩ := Option.map_eq_some_iff.mp rest.registered
  obtain ⟨r, _, hs⟩ := Option.bind_eq_some_iff.mp found
  have here : state.registration ∈ l.registrations :=
    List.mem_map_of_mem (List.mem_of_getElem? hs)
  have content := (h.current ws rest.socket).registered _ here socket
  rw [rest.controls] at content
  rw [HubProcess.hubLimit, found]
  exact congrArg (fun p : WorkerId × Int => some p.2) content

/-- At rest, nothing stands between the row and the entry. -/
theorem reg_agrees (h : l.hub.Agreeing workerId) (rest : l.AtRest workerId ws) :
    l.hub.regLimit workerId = l.hub.hubLimit workerId := by
  have pending : HubProcess.pending workerId l.hub.handlers = [] := by
    rw [HubProcess.pending, List.filterMap_eq_nil_iff]
    intro handler hh
    have other := rest.idle handler hh
    cases handler with
    | onHello _ _ _ returned | setConcurrency _ _ returned =>
      cases returned with
      | true => rfl
      | false => exact if_neg fun same => other (congrArg some same)
    | onMessage => rfl
  have greetings : HubProcess.greetings workerId l.hub.handlers = [] := by
    rw [HubProcess.greetings, List.filterMap_eq_nil_iff]
    intro handler hh
    have other := rest.idle handler hh
    cases handler with
    | onHello => exact if_neg fun same => other (congrArg some same)
    | setConcurrency | onMessage => rfl
  obtain ⟨state, found, _⟩ := Option.map_eq_some_iff.mp rest.registered
  have agree := h.agree state.concurrencyLimit
  rw [pending, greetings] at agree
  have limit : l.hub.hubLimit workerId = some state.concurrencyLimit := by
    rw [HubProcess.hubLimit, found]
    rfl
  rw [limit]
  exact agree limit

/-- The three views of a worker's limit are one at rest, in runs in which the worker's
writes and registrations end in the order in which they were begun. -/
theorem limits_agree {limit : Int} {db : Db}
    {workerReg : Table WorkerReg WorkerId WorkerReg.workerId} {es : List (Event Link Action)}
    (run : Run step (init workerId limit db workerReg) es l)
    (ordered : ∀ e ∈ es, InOrder workerId e) (rest : l.AtRest workerId ws) :
    l.Agreed workerId := by
  have hub := hub_agrees (run_inStep run) rest
  exact ⟨hub, (reg_agrees (run_agreeing run ordered) rest).trans hub⟩

instance (workerId : WorkerId) (ws : SocketId) (l : Link) : Decidable (l.AtRest workerId ws) :=
  decidable_of_iff ((∀ handler ∈ l.hub.handlers, handler.owner ≠ some workerId) ∧
      l.worker.ws = some ws ∧
      ((l.hub.hub.get workerId).bind (l.hub.hub.states[·]?)).map WorkerState.ws = some ws ∧
      l.controlsOn ws = [])
    ⟨fun ⟨idle, socket, registered, controls⟩ => ⟨idle, socket, registered, controls⟩,
      fun h => ⟨h.idle, h.socket, h.registered, h.controls⟩⟩

instance (workerId : WorkerId) (l : Link) : Decidable (l.Agreed workerId) :=
  inferInstanceAs (Decidable (_ ∧ _))

def joinRun : List Action :=
  [.worker (.start 1), .hub (.connection 1), .worker (.opened 1), .up 1 (.quiet "c1" 1),
    .hub (.write 0), .hub (.resume 0 (.quiet "c1" 1))]

/-- Two calls overlap; the second is answered last. -/
def callsRun : List Action :=
  joinRun ++ [.hub (.setConcurrency "w1" 2), .hub (.setConcurrency "w1" 3), .down, .hub (.write 0),
    .down, .hub (.write 1), .hub (.resume 0 (.quiet "c1" 2)), .hub (.resume 0 (.quiet "c1" 2))]

theorem limits_agree_callsRun : ∃ l,
    Run step (init "w1" 4 .migrated .empty) (trace step (init "w1" 4 .migrated .empty) callsRun) l ∧
    l.AtRest "w1" 1 ∧ l.worker.concurrencyLimit = 3 ∧ l.Agreed "w1" := by
  obtain ⟨l, hl, hp⟩ : ∃ l, exec step (init "w1" 4 .migrated .empty) callsRun = some l ∧
      decide (l.AtRest "w1" 1 ∧ l.worker.concurrencyLimit = 3) = true := exec_any (by decide)
  obtain ⟨rest, three⟩ := of_decide_eq_true hp
  have run := run_of_exec callsRun hl
  have steps : (trace step (init "w1" 4 .migrated .empty) callsRun).all
    (fun e => InOrder "w1" e) = true := by decide
  exact ⟨l, run, rest, three, limits_agree run
    (fun e he => of_decide_eq_true (List.all_eq_true.mp steps e he)) rest⟩

/-- The first of the two is answered last. -/
def overtakenRun : List Action :=
  joinRun ++ [.hub (.setConcurrency "w1" 2), .hub (.setConcurrency "w1" 3), .down, .down,
    .hub (.write 1), .hub (.write 0), .hub (.resume 0 (.quiet "c1" 2)),
    .hub (.resume 0 (.quiet "c1" 2))]

/-- The update returns an error. -/
def failedRun : List Action :=
  joinRun ++ [.hub (.setConcurrency "w1" 2), .down, .hub (.writeFails 0),
    .hub (.resume 0 (.quiet "c1" 2))]

/-- A call reaches the connection that a suspended hello is to replace. -/
def replacedRun : List Action :=
  joinRun ++ [.worker (.closed 1), .worker (.reconnect 0 2), .hub (.connection 2),
    .worker (.opened 2), .up 2 (.quiet "c1" 2), .hub (.setConcurrency "w1" 2), .hub (.write 0),
    .hub (.write 1), .hub (.resume 0 (.quiet "c1" 3)), .hub (.resume 0 (.quiet "c1" 3))]

/-- The run ends at rest with views that differ. -/
def Differs (as : List Action) : Prop :=
  ∃ l, Run step (init "w1" 4 .migrated .empty) (trace step (init "w1" 4 .migrated .empty) as) l ∧
    (∃ ws, l.AtRest "w1" ws) ∧ ¬ l.Agreed "w1"

theorem differs_of_exec {as : List Action} (ws : SocketId)
    (h : (exec step (init "w1" 4 .migrated .empty) as).any (fun l =>
      decide (l.AtRest "w1" ws ∧ ¬ l.Agreed "w1")) = true) : Differs as := by
  obtain ⟨l, hl, hp⟩ := exec_any h
  obtain ⟨rest, apart⟩ := of_decide_eq_true hp
  exact ⟨l, run_of_exec as hl, ⟨ws, rest⟩, apart⟩

theorem limits_differ : Differs overtakenRun ∧ Differs failedRun ∧ Differs replacedRun :=
  ⟨differs_of_exec 1 (by decide), differs_of_exec 1 (by decide), differs_of_exec 2 (by decide)⟩

end Link

end Dispatcher
