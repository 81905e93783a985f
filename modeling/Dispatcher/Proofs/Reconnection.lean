import Dispatcher.Lib.Progress
import Dispatcher.Link.Connections
import Dispatcher.Proofs.LimitViews

namespace Dispatcher
open Tables Runs

namespace Link

variable {l l' : Link} {workerId : WorkerId} {limit : Int} {db : Db}
  {workerReg : Table WorkerReg WorkerId WorkerReg.workerId} {es : List (Event Link Action)}

/-- No socket is made while another one is open, or after `stop`. A worker that runs has a
socket that is not closed, or else one reconnect timer, which `stop` can clear. -/
structure OneConnection (es : List (Event Link Action)) (l : Link) : Prop where
  single : ∀ e ∈ es, e.action.connects = true → e.before.phase = .closed
  last : ∀ pre e post, es = pre ++ e :: post → e.action = .worker .stop → e.before.worker.ws ≠ none →
    ∀ f ∈ post, f.action.connects = false
  connected : l.worker.running = true → l.phase ≠ .closed → l.worker.reconnects = []
  waiting : l.worker.running = true → l.worker.ws ≠ none → l.phase = .closed → ∃ t,
    l.worker.reconnects = [⟨t, .reconnect⟩] ∧ l.worker.reconnectTimer = some t
  stopped : l.worker.running = false → l.worker.reconnects = []

/-- Every reachable connection is at one of the stages. -/
theorem stage_reachable (known : Reachable step (init workerId limit db workerReg) l) :
    Stage l.worker l.phase :=
  known.invariant (stage_init workerId limit db workerReg) fun _ _ _ h hs => stage_step h hs

/-- A new socket is made only where the last one is closed. -/
theorem connects_closed (h : Stage l.worker l.phase) {a : Action} (taken : step l a = some l')
    (connects : a.connects = true) : l.phase = .closed := by
  cases a with
  | worker e =>
    obtain ⟨m, moved, taken⟩ := Option.bind_eq_some_iff.mp taken
    obtain ⟨sends, handled, _⟩ := react_worker taken
    cases e with
    | start ws =>
      obtain ⟨⟨never, _⟩, _⟩ := Option.ite_none_right_eq_some.mp moved
      obtain ⟨_, _, _, closed⟩ := h.unused never
      exact closed
    | reconnect timer ws =>
      obtain ⟨_, same⟩ := Option.ite_none_right_eq_some.mp moved
      cases same
      exact (h.reconnect handled).1
    | _ => cases connects
  | _ => cases connects

/-- A worker that has been stopped makes no other socket. -/
theorem stopped_step (h : Stage l.worker l.phase) (off : l.worker.running = false)
    (used : l.worker.ws ≠ none) {a : Action} (taken : step l a = some l') :
    a.connects = false ∧ l'.worker.running = false ∧ l'.worker.ws ≠ none := by
  obtain ⟨unarmed, named⟩ := h.off off used
  have calm {e : WorkerEvent} {sends : List WorkerToCoordMsg}
      (handled : l.worker.handle e = some (l'.worker, sends)) (other : e.connection = false) :
      l'.worker.running = false ∧ l'.worker.ws ≠ none := by
    have apart : l.worker.Apart := by simp [WorkerService.Apart, unarmed]
    have calm := WorkerService.handle_calm named apart handled other
    exact ⟨calm.running.trans off, calm.ws ▸ used⟩
  cases a with
  | hub a =>
    obtain ⟨_, taken⟩ := Option.ite_none_right_eq_some.mp taken
    obtain ⟨hub, _, rfl⟩ := Option.map_eq_some_iff.mp taken
    exact ⟨rfl, off, used⟩
  | up ws ctx =>
    obtain ⟨⟨msg, up⟩, _, taken⟩ := Option.bind_eq_some_iff.mp taken
    obtain ⟨hub, _, rfl⟩ := Option.map_eq_some_iff.mp taken
    exact ⟨rfl, off, used⟩
  | down =>
    simp only [step] at taken
    split at taken
    next =>
      obtain ⟨⟨msg, down⟩, _, taken⟩ := Option.bind_eq_some_iff.mp taken
      obtain ⟨sends, handled, _⟩ := react_worker taken
      exact ⟨rfl, calm handled rfl⟩
    next => cases taken
  | worker e =>
    obtain ⟨m, moved, taken⟩ := Option.bind_eq_some_iff.mp taken
    obtain ⟨sends, handled, _⟩ := react_worker taken
    cases e with
    | message => cases moved
    | start ws =>
      obtain ⟨⟨never, _⟩, _⟩ := Option.ite_none_right_eq_some.mp moved
      exact absurd never used
    | reconnect timer ws =>
      obtain ⟨_, same⟩ := Option.ite_none_right_eq_some.mp moved
      cases same
      have on := (h.reconnect handled).2.1
      rw [off] at on
      cases on
    | opened ws =>
      obtain ⟨_, same⟩ := Option.ite_none_right_eq_some.mp moved
      cases same
      exact ⟨rfl, calm handled rfl⟩
    | closed ws =>
      obtain ⟨_, same⟩ := Option.ite_none_right_eq_some.mp moved
      cases same
      obtain ⟨running, ws⟩ := WorkerService.closed_fields handled
      exact ⟨rfl, running.trans off, ws ▸ used⟩
    | stop =>
      cases moved
      obtain ⟨same, _⟩ := Prod.mk.inj (Option.some.inj handled)
      obtain ⟨running, ws⟩ := WorkerService.stop_fields l.worker
      rw [← same]
      exact ⟨rfl, running, ws ▸ used⟩
    | completed | threw | fire =>
      cases moved
      exact ⟨rfl, calm handled rfl⟩

/-- From its one start on, a worker never has two sockets or two reconnect timers, and
after `stop` it has neither a new socket nor a timer. -/
theorem one_connection (run : Run step (init workerId limit db workerReg) es l) :
    OneConnection es l := by
  have stage := stage_reachable ⟨es, run⟩
  constructor
  case single => exact fun e he => connects_closed (stage_reachable (run.event he).1) (run.event he).2
  case last =>
    rintro pre e post rfl stops used f hf
    obtain ⟨before, taken, after⟩ := run.at_split
    have known : Reachable step (init workerId limit db workerReg) e.after := ⟨_, before.snoc taken⟩
    let Off (l : Link) : Prop := l.worker.running = false ∧ l.worker.ws ≠ none
    have first : Off e.after := by
      rw [stops] at taken
      obtain ⟨sends, handled, _⟩ := react_worker (e := .stop) taken
      obtain ⟨same, _⟩ := Prod.mk.inj (Option.some.inj handled)
      obtain ⟨running, ws⟩ := WorkerService.stop_fields e.before.worker
      have worker : e.after.worker = e.before.worker.stop := same.symm
      exact ⟨worker ▸ running, worker ▸ ws ▸ used⟩
    obtain ⟨later, taken⟩ := after.event hf
    have off : Off f.before := later.invariant_with (fun _ hu => stage_reachable (known.trans hu)) first
      fun _ _ _ stage off hs => (stopped_step stage off.1 off.2 hs).2
    exact (stopped_step (stage_reachable (known.trans later)) off.1 off.2 taken).1
  case connected =>
    intro running connected
    cases stage with
    | unstarted fresh => rw [fresh]; rfl
    | live _ _ _ unarmed => exact unarmed
    | waiting _ _ closed => exact absurd closed connected
    | stopped off =>
      rw [running] at off
      cases off
  case waiting =>
    intro running used closed
    cases stage with
    | unstarted fresh => exact absurd (by rw [fresh]; rfl) used
    | live _ _ connected => exact absurd closed connected
    | waiting _ _ _ armed handle => exact ⟨_, armed, handle⟩
    | stopped off =>
      rw [running] at off
      cases off
  case stopped =>
    intro off
    cases stage with
    | unstarted fresh => rw [fresh]; rfl
    | live running | waiting running =>
      rw [running] at off
      cases off
    | stopped _ _ unarmed => exact unarmed

/-- The connection is lost and made again, and then the worker stops. -/
def leavingRun : List Action :=
  [.worker (.start 1), .worker (.opened 1), .worker (.closed 1), .worker (.reconnect 0 2),
    .worker (.opened 2), .worker .stop, .worker (.closed 2)]

theorem one_connection_leavingRun : ∃ l,
    exec step (init "w1" 4 .migrated .empty) leavingRun = some l ∧ l.worker.running = false ∧
    OneConnection (trace step (init "w1" 4 .migrated .empty) leavingRun) l := by
  obtain ⟨l, hl, hp⟩ : ∃ l, exec step (init "w1" 4 .migrated .empty) leavingRun = some l ∧
      decide (l.worker.running = false) = true := exec_any (by decide)
  exact ⟨l, hl, of_decide_eq_true hp, one_connection (run_of_exec leavingRun hl)⟩

/-- The worker's last socket closes and it connects again, and its hub handles its hello;
nobody else does anything. -/
def Joins (ws : SocketId) (e : Event Link Action) : Prop :=
  match e.action with
  | .worker (.closed ws') => ws' ≠ ws
  | .worker (.reconnect _ ws') | .worker (.opened ws') | .hub (.connection ws') | .up ws' _ => ws' = ws
  | .hub (.write i) | .hub (.resume i _) => ∃ workerId limit returned,
    e.before.hub.handlers[i]? = some (.onHello ws workerId limit returned)
  | _ => False

/-- The worker's socket is OPEN on both sides, and its coordinator gives it jobs up to
its limit. -/
structure Joined (ws : SocketId) (l : Link) : Prop where
  socket : l.worker.ws = some ws
  phase : l.phase = .opened
  entry : ∃ r, l.hub.hub.openState l.hub.isOpen l.worker.workerId =
    some (r, ⟨ws, l.worker.workerId, l.worker.concurrencyLimit, 0⟩)

variable {ws : SocketId}

/-- The worker has made the socket, on which nothing has been sent. -/
structure Connecting (ws : SocketId) (l : Link) : Prop where
  socket : l.worker.ws = some ws
  phase : l.phase = .connecting
  silent : ∀ m ∈ l.up, m.1 ≠ ws

structure Greeted (ws : SocketId) (i : Nat) (returned : Bool) (l : Link) : Prop where
  socket : l.worker.ws = some ws
  phase : l.phase = .opened
  opened : ws ∈ l.hub.opened
  handler : l.hub.handlers[i]? =
    some (.onHello ws l.worker.workerId l.worker.concurrencyLimit returned)

/-- The reconnect timer fires. -/
theorem leads_connecting {t : TimerId} (armed : ⟨t, .reconnect⟩ ∈ l.worker.timers)
    (fresh : l.fresh ws = true) (silent : ∀ m ∈ l.up, m.1 ≠ ws) :
    Leads step (Joins ws) l (Connecting ws) := by
  let m : Link := { l with phase := .connecting, sockets := l.sockets ++ [ws] }
  have taken : step l (.worker (.reconnect t ws)) = some { m with
      worker := (l.worker.clearTimer (some t)).connect ws
      up := l.up ++ Fleet.emitted ((l.worker.clearTimer (some t)).connect ws) [] } := by
    simp [step, moves, fresh, react, WorkerService.handle, armed, m]
  refine .one taken rfl ⟨rfl, rfl, fun m hm => ?_⟩
  exact silent m (by simpa [Fleet.emitted, WorkerService.connect] using hm)

/-- The hub takes the socket, which opens, and reads the hello on it. -/
theorem leads_greeted (h : Connecting ws l) :
    Leads step (Joins ws) l fun l' => ∃ i, Greeted ws i false l' := by
  let connected : Link := l.follow { l.hub with opened := l.hub.opened ++ [ws] }
  let opened : Link := { connected with
    phase := .opened
    worker := { l.worker with wsOpen := true }
    up := l.up ++ [(ws, l.worker.hello)] }
  let hub : HubProcess := { connected.hub with
    received := l.hub.received ++ [(ws, l.worker.hello)]
    ids := l.hub.ids ++ [(ws, l.worker.workerId)]
    handlers := l.hub.handlers ++ [.onHello ws l.worker.workerId l.worker.concurrencyLimit false] }
  have connects : step l (.hub (.connection ws)) = some connected := rfl
  have opens : step connected (.worker (.opened ws)) = some opened := by
    simp [step, moves, react, WorkerService.handle, connected, follow, h.socket, h.phase, Fleet.emitted,
      opened]
  have reads : step opened (.up ws (.quiet "" 0)) = some ({ opened with up := l.up }.follow hub) := by
    simp only [step, opened, Fifo.take_last h.silent, Option.bind_some]
    rfl
  have first : Leads step (Joins ws) l fun l' => l' = connected := .one connects rfl rfl
  have second : Leads step (Joins ws) connected fun l' => l' = opened := .one opens rfl rfl
  refine first.trans fun _ same => same ▸ second.trans fun _ same => same ▸ .one reads rfl ?_
  refine ⟨l.hub.handlers.length, h.socket, rfl, ?_, ?_⟩
  · exact List.mem_append_right _ (List.mem_singleton_self _)
  · exact List.getElem?_concat_length

/-- A hello closes no socket but a stale one. -/
theorem register_opened {s : HubProcess} (opened : ws ∈ s.opened) {workerId : WorkerId} {limit : Int} :
    ws ∈ (s.register ws workerId limit).opened := by
  unfold HubProcess.register
  cases stale : s.hub.stale s.isOpen workerId ws with
  | none => exact opened
  | some ws' =>
    obtain ⟨⟨r, state⟩, _, other⟩ := Option.bind_eq_some_iff.mp stale
    obtain ⟨different, same⟩ := Option.ite_none_left_eq_some.mp other
    cases same
    exact List.mem_filter.mpr ⟨opened, decide_eq_true (Ne.symm different)⟩

/-- The handler of the hello registers the worker. -/
theorem leads_joined {i : Nat} (h : Greeted ws i false l) : Leads step (Joins ws) l (Joined ws) := by
  let w := l.worker
  let written : Link := l.follow { l.hub.upsert w.workerId w.concurrencyLimit with
    handlers := l.hub.handlers.set i (.onHello ws w.workerId w.concurrencyLimit true) }
  have writes : step l (.hub (.write i)) = some written := by
    simp only [step, others, ↓reduceIte, HubProcess.step, h.handler, Option.map_some]
    rfl
  have now : written.hub.handlers[i]? = some (.onHello ws w.workerId w.concurrencyLimit true) := by
    simp [written, follow, (List.getElem?_eq_some_iff.mp h.handler).1]
  let hub : HubProcess := { written.hub with
    handlers := written.hub.handlers.eraseIdx i }.register ws w.workerId w.concurrencyLimit
  have registers : step written (.hub (.resume i (.quiet "" 0))) = some (written.follow hub) := by
    simp only [step, others, ↓reduceIte, HubProcess.step, now, Option.map_some]
    rfl
  have first : Leads step (Joins ws) l fun l' => l' = written := .one writes ⟨_, _, _, h.handler⟩ rfl
  refine first.trans fun _ same => same ▸ .one registers ⟨_, _, _, now⟩ ⟨h.socket, h.phase, ?_⟩
  have fields : hub.hub = written.hub.hub.set ⟨ws, w.workerId, w.concurrencyLimit, 0⟩ :=
    (HubProcess.register_fields _ ws w.workerId w.concurrencyLimit).1
  have opened : ws ∈ hub.opened := register_opened (s := { written.hub with
    handlers := written.hub.handlers.eraseIdx i }) h.opened
  refine ⟨written.hub.hub.states.length, Hub.openState_eq_some.mpr ⟨?_, ?_, decide_eq_true opened⟩⟩
  · exact (congrArg (Hub.get · w.workerId) fields).trans (Hub.get_set _ _)
  · have states := congrArg Hub.states fields
    rw [show ((written.follow hub).hub.hub).states = _ from states]
    exact List.getElem?_concat_length

/-- Whatever has become of its connection, a worker that runs can be registered again,
on a new socket and with its own limit. -/
theorem rejoins (known : Reachable step (init workerId limit db workerReg) l)
    (running : l.worker.running = true) (fresh : l.fresh ws = true) :
    Leads step (Joins ws) l (Joined ws) := by
  obtain ⟨es, run⟩ := id known
  have placed := (run_inStep run).toPlaced
  have apart : ws ∉ l.sockets := of_decide_eq_true (Bool.and_eq_true_iff.mp fresh).1
  have silent : ∀ m ∈ l.up, m.1 ≠ ws := fun m hm same => apart (same ▸ placed.up m hm)
  have stage := stage_reachable known
  have connecting : Leads step (Joins ws) l (Connecting ws) := by
    by_cases closed : l.phase = .closed
    · obtain ⟨t, armed⟩ := (closed ▸ stage).armed running
      exact leads_connecting armed fresh silent
    · obtain ⟨ws₀, current⟩ := Option.ne_none_iff_exists'.mp (stage.used closed)
      let w : WorkerService := { l.worker with wsOpen := false }
      let closing : Link := { l with
        phase := .closed
        worker := w.scheduleReconnect
        up := l.up ++ Fleet.emitted w.scheduleReconnect [] }
      have closes : step l (.worker (.closed ws₀)) = some closing := by
        simp [step, moves, current, closed, react, WorkerService.handle, closing, w]
      have other : ws₀ ≠ ws := fun same => apart (same ▸ placed.socket ws₀ current)
      have first : Leads step (Joins ws) l fun l' => l' = closing := .one closes other rfl
      have on : closing.worker.running = true := by
        simp [closing, w, WorkerService.scheduleReconnect, running, WorkerService.setTimer]
      obtain ⟨t, armed⟩ := (stage_step stage closes).armed on
      refine first.trans fun _ same => same ▸ leads_connecting armed fresh fun m hm => ?_
      rcases List.mem_append.mp hm with hm | hm
      · exact silent m hm
      · cases (emitted_mem hm).2
  refine connecting.trans fun l' h => (leads_greeted h).trans fun l' h => ?_
  obtain ⟨i, h⟩ := h
  exact leads_joined h

/-- A call for another limit is lost with the connection that it was sent on. -/
def lostRun : List Action := joinRun ++ [.hub (.setConcurrency "w1" 2), .worker (.closed 1)]

theorem rejoins_lostRun : ∃ l, exec step (init "w1" 4 .migrated .empty) lostRun = some l ∧
    l.hub.hubLimit "w1" = some 2 ∧ Leads step (Joins 2) l (Joined 2) := by
  obtain ⟨l, hl, hp⟩ : ∃ l, exec step (init "w1" 4 .migrated .empty) lostRun = some l ∧
      decide (l.worker.running = true ∧ l.fresh 2 = true ∧ l.hub.hubLimit "w1" = some 2) = true :=
    exec_any (by decide)
  obtain ⟨running, fresh, two⟩ := of_decide_eq_true hp
  exact ⟨l, hl, two, rejoins (reachable_of_exec lostRun hl) running fresh⟩

end Link

end Dispatcher
