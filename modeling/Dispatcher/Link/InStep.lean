import Dispatcher.Hub.Registration
import Dispatcher.Model.Link
import Mathlib.Data.List.Perm.Subperm

namespace Dispatcher
open Tables Runs Overwrites

namespace WorkerService

/-- What a worker's hello depends on. -/
def view (w : WorkerService) : WorkerId × Option SocketId × Int :=
  (w.workerId, w.ws, w.concurrencyLimit)

/-- A handler that changes none of it and says no hello. -/
structure Steady (w : WorkerService) (p : WorkerService × List WorkerToCoordMsg) : Prop where
  view : p.1.view = w.view
  sends : ∀ m ∈ p.2, m.greeting = none

variable {w w' : WorkerService}

theorem Steady.silent (h : w'.view = w.view) : w.Steady (w', []) :=
  ⟨h, fun _ hm => by cases hm⟩

theorem Steady.saying (h : w'.view = w.view) {msg : WorkerToCoordMsg} (hm : msg.greeting = none) :
    w.Steady (w', [msg]) := by
  refine ⟨h, fun m hm' => ?_⟩
  rw [List.mem_singleton.mp hm']
  exact hm

theorem Steady.trans {p : WorkerService × List WorkerToCoordMsg} (h : w'.view = w.view)
    (h' : w'.Steady p) : w.Steady p :=
  ⟨h'.view.trans h, h'.sends⟩

theorem scheduleReconnect_view (w : WorkerService) : w.scheduleReconnect.view = w.view := by
  unfold scheduleReconnect
  split <;> rfl

theorem stop_view (w : WorkerService) : w.stop.view = w.view := by
  have cleared : ∀ (jobs : List InFlightJob) (w : WorkerService), (jobs.foldl
      (fun w job => (w.clearTimer job.retryTimer).clearTimer job.heartbeatTimer) w).view =
        w.view := by
    intro jobs
    induction jobs with
    | nil => exact fun _ => rfl
    | cons job rest ih => exact fun w => ih _
  exact cleared _ _

theorem handleAck_view (w : WorkerService) (jobId : JobId) : (w.handleAck jobId).view = w.view := by
  unfold handleAck
  split <;> rfl

theorem scheduleResultRetry_view (w : WorkerService) (jobId : JobId) (token : Token) :
    (w.scheduleResultRetry jobId token).view = w.view := by
  unfold scheduleResultRetry
  split
  · rfl
  · split <;> rfl

theorem handleDispatch_steady (w : WorkerService) (msg : JobDispatch) :
    w.Steady (w.handleDispatch msg) := by
  unfold handleDispatch
  split
  · exact .silent rfl
  · split
    · exact .saying rfl rfl
    · exact .silent rfl

theorem completed_steady (w : WorkerService) (run : Execution) (result : Json) :
    w.Steady (w.completed run result) := by
  unfold completed
  split
  · exact .silent rfl
  · split
    · exact .silent rfl
    · refine .saying ?_ rfl
      exact scheduleResultRetry_view _ _ _

theorem threw_steady (w : WorkerService) (run : Execution) (error : String) :
    w.Steady (w.threw run error) := by
  unfold threw
  split
  · exact .silent rfl
  · split
    · exact .silent rfl
    · refine .saying ?_ rfl
      rfl

theorem onHeartbeatTimer_steady (w : WorkerService) (jobId : JobId) (token : Token) :
    w.Steady (w.onHeartbeatTimer jobId token) := by
  unfold onHeartbeatTimer
  split
  · exact .silent rfl
  · split
    · exact .silent rfl
    · exact .saying rfl rfl

theorem onRetryTimer_steady (w : WorkerService) (jobId : JobId) (token : Token) :
    w.Steady (w.onRetryTimer jobId token) := by
  unfold onRetryTimer
  split
  · exact .silent rfl
  · split
    · exact .silent rfl
    · split
      · exact .silent rfl
      · refine .saying ?_ rfl
        exact scheduleResultRetry_view _ _ _

/-- Of the messages only a new limit touches the view. -/
theorem route_steady (w : WorkerService) {msg : CoordToWorkerMsg} (h : msg.control = none) :
    w.Steady (w.route msg) := by
  cases msg with
  | jobDispatch msg => exact handleDispatch_steady w msg
  | jobAck jobId => exact .silent (handleAck_view w jobId)
  | ping => exact .saying rfl rfl
  | setConcurrency limit => cases h

theorem fire_steady {timer : TimerId} {p : WorkerService × List WorkerToCoordMsg}
    (h : w.handle (.fire timer) = some p) : w.Steady p := by
  simp only [handle] at h
  split at h
  · cases h
    exact onHeartbeatTimer_steady w _ _
  · cases h
    refine .trans ?_ (onRetryTimer_steady _ _ _)
    rfl
  · cases h
  · cases h

theorem completed_handled {i : Nat} {result : Json} {p : WorkerService × List WorkerToCoordMsg}
    (h : w.handle (.completed i result) = some p) : w.Steady p := by
  obtain ⟨run, _, rfl⟩ := Option.map_eq_some_iff.mp h
  refine .trans ?_ (completed_steady _ run result)
  rfl

theorem threw_handled {i : Nat} {error : String} {p : WorkerService × List WorkerToCoordMsg}
    (h : w.handle (.threw i error) = some p) : w.Steady p := by
  obtain ⟨run, _, rfl⟩ := Option.map_eq_some_iff.mp h
  refine .trans ?_ (threw_steady _ run error)
  rfl

theorem closed_handled {ws : SocketId} {p : WorkerService × List WorkerToCoordMsg}
    (h : w.handle (.closed ws) = some p) : w.Steady p := by
  simp only [handle, Option.some.injEq] at h
  subst h
  refine .silent ?_
  rw [scheduleReconnect_view]
  split <;> rfl

end WorkerService

def Handler.helloOn (ws : SocketId) : Handler → Option (WorkerId × Int)
  | .onHello ws' workerId limit _ => if ws' = ws then some (workerId, limit) else none
  | .setConcurrency .. | .onMessage .. => none

namespace Link

section

variable (ws : SocketId) (l : Link)

/-- The hellos of a socket that have not registered anything yet. -/
def hellosOn : List (WorkerId × Int) :=
  (Fifo.on ws l.up).filterMap WorkerToCoordMsg.greeting ++
    l.hub.handlers.filterMap (Handler.helloOn ws)

def controlsOn : List Int := (Fifo.on ws l.down).filterMap CoordToWorkerMsg.control

def registrations : List (SocketId × WorkerId × Int) :=
  l.hub.hub.states.map WorkerState.registration

/-- The worker's current socket. Its hello carries the worker's limit, and is one; once it
has registered the worker, the messages under way make up the difference. -/
structure Current : Prop where
  one : (l.hellosOn ws).length ≤ 1
  connecting : l.phase = .connecting →
    l.hellosOn ws = [] ∧ ws ∉ l.registrations.map Prod.fst
  carried : ∀ p ∈ l.hellosOn ws, p = (l.worker.workerId, l.worker.concurrencyLimit)
  exclusive : l.hellosOn ws ≠ [] → ws ∉ l.registrations.map Prod.fst
  unique : ∀ r r' : StateRef, (l.registrations.map Prod.fst)[r]? = some ws →
    (l.registrations.map Prod.fst)[r']? = some ws → r = r'
  registered : ∀ p ∈ l.registrations, p.1 = ws →
    p.2 = (l.worker.workerId, (l.controlsOn ws).getLast?.getD l.worker.concurrencyLimit)

/-- Where the sockets of messages and registrations come from. -/
structure Placed : Prop where
  registered : l.registrations.map Prod.fst ⊆ l.hub.received.map Prod.fst
  greeted : ∀ ws, l.hub.handlers.filterMap (Handler.helloOn ws) ≠ [] →
    ws ∈ l.hub.received.map Prod.fst
  controlled : ∀ ws, l.controlsOn ws ≠ [] → ws ∈ l.registrations.map Prod.fst
  up : ∀ m ∈ l.up, m.1 ∈ l.sockets
  socket : ∀ ws, l.worker.ws = some ws → ws ∈ l.sockets

structure InStep : Prop extends Placed l where
  current : ∀ ws, l.worker.ws = some ws → l.Current ws

end

variable {l l' : Link} {ws : SocketId}

structure Same (l l' : Link) : Prop where
  registrations : l'.registrations = l.registrations
  received : l.hub.received.map Prod.fst ⊆ l'.hub.received.map Prod.fst
  greeted : ∀ ws, l'.hub.handlers.filterMap (Handler.helloOn ws) =
    l.hub.handlers.filterMap (Handler.helloOn ws)
  controls : ∀ ws, l'.controlsOn ws = l.controlsOn ws

theorem Placed.same (h : l.Placed) (same : Same l l') (up : ∀ m ∈ l'.up, m.1 ∈ l'.sockets)
    (socket : ∀ ws, l'.worker.ws = some ws → ws ∈ l'.sockets) : l'.Placed where
  registered := by
    rw [same.registrations]
    exact fun ws hw => same.received (h.registered hw)
  greeted := by
    intro ws greets
    rw [same.greeted] at greets
    exact same.received (h.greeted ws greets)
  controlled := by
    intro ws controls
    rw [same.controls] at controls
    rw [same.registrations]
    exact h.controlled ws controls
  up := up
  socket := socket

/-- The socket stays in step where what it owes has not changed. -/
theorem Current.next (h : l.Current ws) (registrations : l'.registrations = l.registrations)
    (hellos : (l'.hellosOn ws).Subperm (l.hellosOn ws))
    (controls : l'.controlsOn ws = l.controlsOn ws)
    (workerId : l'.worker.workerId = l.worker.workerId)
    (limit : l'.worker.concurrencyLimit = l.worker.concurrencyLimit)
    (phase : l'.phase = .connecting → l.phase = .connecting) : l'.Current ws := by
  have some_left : l'.hellosOn ws ≠ [] → l.hellosOn ws ≠ [] := by
    intro left none
    rw [none, List.subperm_nil] at hellos
    exact left hellos
  refine ⟨hellos.length_le.trans h.one, ?_, ?_, ?_, ?_, ?_⟩
  · intro connecting
    obtain ⟨none, fresh⟩ := h.connecting (phase connecting)
    rw [none, List.subperm_nil] at hellos
    rw [registrations]
    exact ⟨hellos, fresh⟩
  · rw [workerId, limit]
    exact fun p hp => h.carried p (hellos.subset hp)
  · rw [registrations]
    exact fun left => h.exclusive (some_left left)
  · rw [registrations]
    exact h.unique
  · rw [registrations, controls, workerId, limit]
    exact h.registered

theorem InStep.same (h : l.InStep) (same : Same l l') (worker : l'.worker.view = l.worker.view)
    (phase : l'.phase = .connecting → l.phase = .connecting) (sockets : l'.sockets = l.sockets)
    (up : ∀ m ∈ l'.up, m.1 ∈ l'.sockets)
    (hellos : ∀ ws, ((Fifo.on ws l'.up).filterMap WorkerToCoordMsg.greeting).Sublist
      ((Fifo.on ws l.up).filterMap WorkerToCoordMsg.greeting)) : l'.InStep := by
  obtain ⟨workerId, socket, limit⟩ : l'.worker.workerId = l.worker.workerId ∧
      l'.worker.ws = l.worker.ws ∧ l'.worker.concurrencyLimit = l.worker.concurrencyLimit := by
    simpa [WorkerService.view] using worker
  refine ⟨h.toPlaced.same same up ?_, ?_⟩
  · rw [socket, sockets]
    exact h.socket
  · intro ws hw
    refine (h.current ws (socket ▸ hw)).next same.registrations ?_ (same.controls ws) workerId limit
      phase
    rw [hellosOn, same.greeted]
    exact ((hellos ws).append_right _).subperm

theorem controlsOn_follow {hub : HubProcess} {more : List (SocketId × CoordToWorkerMsg)}
    (sent : hub.sent = l.hub.sent ++ more) (ws : SocketId) :
    (l.follow hub).controlsOn ws =
      l.controlsOn ws ++ (Fifo.on ws more).filterMap CoordToWorkerMsg.control := by
  simp [controlsOn, follow, sent]

theorem controls_none {more : List (SocketId × CoordToWorkerMsg)}
    (none : ∀ m ∈ more, m.2.control = none) (ws : SocketId) :
    (Fifo.on ws more).filterMap CoordToWorkerMsg.control = [] := by
  rw [List.filterMap_eq_nil_iff]
  exact fun m hm => none _ (Fifo.mem_on.mp hm)

theorem helloOn_control (ws : SocketId) (handlers : List Handler) :
    (handlers.filter Handler.control).filterMap (Handler.helloOn ws) =
      handlers.filterMap (Handler.helloOn ws) := by
  rw [List.filterMap_filter]
  congr 1
  funext handler
  cases handler <;> rfl

theorem same_quiet {hub : HubProcess} (quiet : HubProcess.Quiet l.hub hub)
    (up : List (SocketId × WorkerToCoordMsg)) : Same l ({ l with up }.follow hub) := by
  obtain ⟨more, sent, none, _⟩ := quiet.sent
  obtain ⟨received, hr⟩ := quiet.received
  refine ⟨quiet.registrations, ?_, ?_, ?_⟩
  · simp [follow, hr]
  · intro ws
    exact (helloOn_control ws hub.handlers).symm.trans
      ((congrArg _ quiet.handlers).trans (helloOn_control ws l.hub.handlers))
  · intro ws
    refine (controlsOn_follow (l := { l with up }) sent ws).trans ?_
    rw [controls_none none, List.append_nil]
    rfl

theorem registrations_same (states : l'.hub.hub = l.hub.hub) :
    l'.registrations = l.registrations :=
  congrArg (fun hub : Hub => hub.states.map WorkerState.registration) states

theorem helloOn_answered {old new : Handler} (ended : old.answered = some new) (ws : SocketId) :
    new.helloOn ws = old.helloOn ws := by
  rcases Handler.answered_cases ended with ⟨_, _, _, rfl, rfl⟩ | ⟨_, _, rfl, rfl⟩ <;> rfl

theorem same_written {hub : HubProcess} {i : Nat} {old new : Handler}
    (hi : l.hub.handlers[i]? = some old) (ended : old.answered = some new)
    (states : hub.hub = l.hub.hub) (received : hub.received = l.hub.received)
    (sent : hub.sent = l.hub.sent) (handlers : hub.handlers = l.hub.handlers.set i new) :
    Same l (l.follow hub) := by
  refine ⟨registrations_same states, ?_, ?_, ?_⟩
  · simp [follow, received]
  · intro ws
    exact (congrArg _ handlers).trans (filterMap_set_same _ hi (helloOn_answered ended ws))
  · intro ws
    have none : hub.sent = l.hub.sent ++ [] := by rw [sent, List.append_nil]
    rw [controlsOn_follow none]
    exact List.append_nil _

theorem same_returned {hub : HubProcess} {i : Nat} {old : Handler}
    (hi : l.hub.handlers[i]? = some old) (none : ∀ ws, old.helloOn ws = none)
    (states : hub.hub = l.hub.hub) (received : hub.received = l.hub.received)
    (sent : hub.sent = l.hub.sent) (handlers : hub.handlers = l.hub.handlers.eraseIdx i) :
    Same l (l.follow hub) := by
  refine ⟨registrations_same states, ?_, ?_, ?_⟩
  · simp [follow, received]
  · intro ws
    exact (congrArg _ handlers).trans (filterMap_eraseIdx_none _ hi (none ws))
  · intro ws
    have nothing : hub.sent = l.hub.sent ++ [] := by rw [sent, List.append_nil]
    rw [controlsOn_follow nothing]
    exact List.append_nil _

/-- A hello reaches the hub, from this worker or another. -/
theorem InStep.hello (h : l.InStep) {hub : HubProcess} {ws : SocketId} {workerId : WorkerId}
    {limit : Int} (up : List (SocketId × WorkerToCoordMsg)) (states : hub.hub = l.hub.hub)
    (received : hub.received = l.hub.received ++ [(ws, .workerHello workerId limit)])
    (sent : hub.sent = l.hub.sent)
    (handlers : hub.handlers = l.hub.handlers ++ [.onHello ws workerId limit false])
    (fewer : up ⊆ l.up)
    (hellos : ∀ ws', l.worker.ws = some ws' → (({ l with up }.follow hub).hellosOn ws').Subperm
      (l.hellosOn ws')) : ({ l with up }.follow hub).InStep := by
  have controls : ∀ ws', ({ l with up }.follow hub).controlsOn ws' = l.controlsOn ws' := by
    intro ws'
    have none : hub.sent = l.hub.sent ++ [] := by rw [sent, List.append_nil]
    refine (controlsOn_follow (l := { l with up }) none ws').trans ?_
    exact List.append_nil _
  have registrations : ({ l with up }.follow hub).registrations = l.registrations :=
    registrations_same states
  have grown : ({ l with up }.follow hub).hub.received.map Prod.fst =
      l.hub.received.map Prod.fst ++ [ws] := by
    simp [follow, received]
  refine ⟨⟨?_, ?_, ?_, fun m hm => h.up m (fewer hm), h.socket⟩, ?_⟩
  · rw [registrations, grown]
    exact fun ws' hw => List.mem_append_left _ (h.registered hw)
  · intro ws' greets
    rw [grown]
    by_cases same : ws = ws'
    · exact List.mem_append_right _ (List.mem_singleton.mpr same.symm)
    · have before : l.hub.handlers.filterMap (Handler.helloOn ws') ≠ [] := by
        intro none
        simp [follow, handlers, none, Handler.helloOn, same] at greets
      exact List.mem_append_left _ (h.greeted ws' before)
  · intro ws' left
    rw [controls] at left
    rw [registrations]
    exact h.controlled ws' left
  · intro ws' hw
    exact (h.current ws' hw).next registrations (hellos ws' hw) (controls ws') rfl rfl id

/-- What a call of `setConcurrency` makes of the registrations. -/
theorem registrations_called (l' : Link) {r : StateRef} {limit : Int}
    (states : l'.hub.hub = l.hub.hub.modify r
      (fun state => { state with concurrencyLimit := limit }) fun _ => rfl) :
    l'.registrations.map Prod.fst = l.registrations.map Prod.fst ∧ ∀ r' : StateRef,
      l'.registrations[r']? = if r = r' then (l.registrations[r']?).map fun p => (p.1, p.2.1, limit)
        else l.registrations[r']? := by
  constructor
  · have same := Hub.sockets_modify l.hub.hub r
      (f := fun state => { state with concurrencyLimit := limit }) (fun _ => rfl) fun _ => rfl
    rw [registrations, registrations, List.map_map, List.map_map]
    exact (congrArg (fun hub : Hub => hub.states.map WorkerState.ws) states).trans same
  · intro r'
    have lookup := Hub.states_modify l.hub.hub r r'
      (f := fun state => { state with concurrencyLimit := limit }) fun _ => rfl
    rw [registrations, List.getElem?_map, states, lookup, registrations, List.getElem?_map]
    split
    · cases l.hub.hub.states[r']? <;> rfl
    · rfl

/-- The limit of a registered socket changes, on it and behind its messages. -/
theorem Current.called (current : l.Current ws) {r : StateRef}
    {p : SocketId × WorkerId × Int} {limit : Int} (here : l.registrations[r]? = some p)
    (sockets : l'.registrations.map Prod.fst = l.registrations.map Prod.fst)
    (content : ∀ r' : StateRef, l'.registrations[r']? =
      if r = r' then (l.registrations[r']?).map fun p => (p.1, p.2.1, limit)
      else l.registrations[r']?)
    (hellos : l'.hellosOn ws = l.hellosOn ws)
    (controls : l'.controlsOn ws = l.controlsOn ws ++ if p.1 = ws then [limit] else [])
    (worker : l'.worker = l.worker) (phase : l'.phase = l.phase) : l'.Current ws := by
  refine ⟨hellos ▸ current.one, ?_, ?_, ?_, sockets ▸ current.unique, ?_⟩
  · rw [hellos, sockets, phase]
    exact current.connecting
  · rw [hellos, worker]
    exact current.carried
  · rw [hellos, sockets]
    exact current.exclusive
  · rw [worker]
    intro q hq named
    obtain ⟨r', hr⟩ := List.mem_iff_getElem?.mp hq
    rw [content] at hr
    by_cases same : r = r'
    · rw [if_pos same, ← same, here, Option.map_some, Option.some.injEq] at hr
      subst hr
      have workerId := congrArg Prod.fst
        (current.registered p (List.mem_of_getElem? here) named)
      rw [controls, if_pos named, List.getLast?_append]
      exact Prod.ext workerId rfl
    · rw [if_neg same] at hr
      have elsewhere : p.1 ≠ ws := by
        intro socket
        refine same (current.unique r r' ?_ ?_)
        · rw [List.getElem?_map, here, ← socket]
          rfl
        · rw [List.getElem?_map, hr, ← named]
          rfl
      rw [controls, if_neg elsewhere, List.append_nil]
      exact current.registered q (List.mem_of_getElem? hr) named

/-- A call of `setConcurrency` finds the worker registered. -/
theorem InStep.called (h : l.InStep) {hub : HubProcess} {r : StateRef} {state : WorkerState}
    {workerId : WorkerId} {limit : Int} (hs : l.hub.hub.states[r]? = some state)
    (states : hub.hub = l.hub.hub.modify r (fun state => { state with concurrencyLimit := limit })
      fun _ => rfl)
    (received : hub.received = l.hub.received)
    (sent : hub.sent = l.hub.sent ++ [(state.ws, .setConcurrency limit)])
    (handlers : hub.handlers = l.hub.handlers ++ [.setConcurrency workerId limit false]) :
    (l.follow hub).InStep := by
  obtain ⟨sockets, content⟩ := registrations_called (l.follow hub) states
  have here : l.registrations[r]? = some state.registration := by
    rw [registrations, List.getElem?_map, hs]
    rfl
  have greeted : ∀ ws, (l.follow hub).hub.handlers.filterMap (Handler.helloOn ws) =
      l.hub.handlers.filterMap (Handler.helloOn ws) := by
    intro ws
    simp [follow, handlers, Handler.helloOn]
  have controls : ∀ ws, (l.follow hub).controlsOn ws =
      l.controlsOn ws ++ if state.ws = ws then [limit] else [] := by
    intro ws
    rw [controlsOn_follow sent]
    split
    · simp [Fifo.on, CoordToWorkerMsg.control, *]
    · simp [Fifo.on, *]
  refine ⟨⟨?_, ?_, ?_, h.up, h.socket⟩, ?_⟩
  · rw [sockets]
    exact fun ws hw => received ▸ h.registered hw
  · intro ws greets
    rw [greeted] at greets
    exact received ▸ h.greeted ws greets
  · intro ws left
    rw [sockets]
    by_cases same : state.ws = ws
    · exact List.mem_map.mpr ⟨state.registration, List.mem_of_getElem? here, same⟩
    · rw [controls, if_neg same, List.append_nil] at left
      exact h.controlled ws left
  · intro ws hw
    have hellos : (l.follow hub).hellosOn ws = l.hellosOn ws := by
      rw [hellosOn, greeted]
      rfl
    exact (h.current ws hw).called here sockets content hellos (controls ws) rfl rfl

/-- The registration of the current socket, by its only hello. -/
theorem Current.registers (current : l.Current ws) {workerId : WorkerId} {limit : Int}
    {before after : List (WorkerId × Int)}
    (waiting : l.hellosOn ws = before ++ (workerId, limit) :: after)
    (left : l'.hellosOn ws = before ++ after) (quiet : l.controlsOn ws = [])
    (registrations : l'.registrations = l.registrations ++ [(ws, workerId, limit)])
    (controls : l'.controlsOn ws = l.controlsOn ws) (worker : l'.worker = l.worker)
    (phase : l'.phase = l.phase) : l'.Current ws := by
  have some_waiting : l.hellosOn ws ≠ [] := by simp [waiting]
  have fresh := current.exclusive some_waiting
  have carried := current.carried (workerId, limit) (by simp [waiting])
  have none : l'.hellosOn ws = [] := by
    have one := current.one
    rw [waiting, List.length_append, List.length_cons] at one
    rw [← List.length_eq_zero_iff, left, List.length_append]
    omega
  have last : ∀ r : StateRef, (l'.registrations.map Prod.fst)[r]? = some ws →
      r = l.registrations.length := by
    intro r hr
    have bound := (List.getElem?_eq_some_iff.mp hr).1
    rw [registrations, List.length_map, List.length_append, List.length_singleton] at bound
    rw [registrations, List.map_append] at hr
    rcases Nat.lt_or_ge r l.registrations.length with earlier | here
    · rw [List.getElem?_append_left (by simpa using earlier)] at hr
      exact absurd (List.mem_of_getElem? hr) fresh
    · exact Nat.le_antisymm (Nat.lt_succ_iff.mp bound) here
  refine ⟨by simp [none], ?_, by simp [none], fun left => absurd none left, ?_, ?_⟩
  · rw [phase]
    exact fun connecting => absurd (current.connecting connecting).1 some_waiting
  · exact fun r r' hr hr' => (last r hr).trans (last r' hr').symm
  · rw [registrations, controls, quiet, worker]
    intro p hp named
    rcases List.mem_append.mp hp with hp | hp
    · exact absurd (List.mem_map.mpr ⟨p, hp, named⟩) fresh
    · rw [List.mem_singleton.mp hp]
      exact carried

/-- The registration of another socket. -/
theorem Current.aside (current : l.Current ws) {p : SocketId × WorkerId × Int} (other : p.1 ≠ ws)
    (hellos : l'.hellosOn ws = l.hellosOn ws)
    (registrations : l'.registrations = l.registrations ++ [p])
    (controls : l'.controlsOn ws = l.controlsOn ws) (worker : l'.worker = l.worker)
    (phase : l'.phase = l.phase) : l'.Current ws := by
  have absent : ws ∉ l.registrations.map Prod.fst → ws ∉ l'.registrations.map Prod.fst := by
    intro fresh hw
    rw [registrations, List.map_append] at hw
    rcases List.mem_append.mp hw with hw | hw
    · exact fresh hw
    · exact other (List.mem_singleton.mp hw).symm
  have earlier : ∀ r : StateRef, (l'.registrations.map Prod.fst)[r]? = some ws →
      (l.registrations.map Prod.fst)[r]? = some ws := by
    intro r hr
    rw [registrations, List.map_append, List.getElem?_append] at hr
    split at hr
    · exact hr
    · exact absurd (List.mem_singleton.mp (List.mem_of_getElem? hr)).symm other
  refine ⟨hellos ▸ current.one, ?_, ?_, ?_, ?_, ?_⟩
  · rw [hellos, phase]
    intro connecting
    obtain ⟨none, fresh⟩ := current.connecting connecting
    exact ⟨none, absent fresh⟩
  · rw [hellos, worker]
    exact current.carried
  · rw [hellos]
    exact fun waiting => absent (current.exclusive waiting)
  · exact fun r r' hr hr' => current.unique r r' (earlier r hr) (earlier r' hr')
  · rw [registrations, controls, worker]
    intro q hq named
    rcases List.mem_append.mp hq with hq | hq
    · exact current.registered q hq named
    · rw [List.mem_singleton.mp hq] at named
      exact absurd named other

/-- The handler of a hello ends. -/
theorem InStep.registers (h : l.InStep) {hub : HubProcess} {i : Nat} {ws : SocketId}
    {workerId : WorkerId} {limit : Int}
    (hi : l.hub.handlers[i]? = some (.onHello ws workerId limit true))
    (states : hub.hub = l.hub.hub.set ⟨ws, workerId, limit, 0⟩)
    (received : hub.received = l.hub.received) (sent : hub.sent = l.hub.sent)
    (handlers : hub.handlers = l.hub.handlers.eraseIdx i) : (l.follow hub).InStep := by
  have registrations : (l.follow hub).registrations =
      l.registrations ++ [(ws, workerId, limit)] := by
    simp [Link.registrations, follow, states, Hub.set, WorkerState.registration]
  have controls : ∀ ws', (l.follow hub).controlsOn ws' = l.controlsOn ws' := by
    intro ws'
    have nothing : hub.sent = l.hub.sent ++ [] := by rw [sent, List.append_nil]
    rw [controlsOn_follow nothing]
    exact List.append_nil _
  have mine : (Handler.onHello ws workerId limit true).helloOn ws = some (workerId, limit) :=
    if_pos rfl
  have greeted : ws ∈ l.hub.received.map Prod.fst := by
    refine h.greeted ws fun none => ?_
    have absent := List.filterMap_eq_nil_iff.mp none _ (List.mem_of_getElem? hi)
    rw [mine] at absent
    cases absent
  refine ⟨⟨?_, ?_, ?_, h.up, h.socket⟩, ?_⟩
  · rw [registrations, List.map_append]
    intro ws' hw
    rcases List.mem_append.mp hw with hw | hw
    · exact received ▸ h.registered hw
    · rw [List.mem_singleton.mp hw]
      exact received ▸ greeted
  · intro ws' greets
    have waiting : l.hub.handlers.filterMap (Handler.helloOn ws') ≠ [] := by
      intro none
      have fewer := (l.hub.handlers.eraseIdx_sublist i).filterMap (Handler.helloOn ws')
      rw [none] at fewer
      exact greets ((congrArg _ handlers).trans (List.sublist_nil.mp fewer))
    exact received ▸ h.greeted ws' waiting
  · intro ws' left
    rw [controls] at left
    rw [registrations, List.map_append]
    exact List.mem_append_left _ (h.controlled ws' left)
  · intro ws' hw
    have current := h.current ws' hw
    by_cases same : ws = ws'
    · subst same
      have waiting : l.hellosOn ws = ((Fifo.on ws l.up).filterMap WorkerToCoordMsg.greeting ++
          (l.hub.handlers.take i).filterMap (Handler.helloOn ws)) ++
            (workerId, limit) :: (l.hub.handlers.drop (i + 1)).filterMap (Handler.helloOn ws) := by
        rw [hellosOn, filterMap_at _ hi, mine, List.append_assoc]
        rfl
      have left : (l.follow hub).hellosOn ws =
          ((Fifo.on ws l.up).filterMap WorkerToCoordMsg.greeting ++
            (l.hub.handlers.take i).filterMap (Handler.helloOn ws)) ++
              (l.hub.handlers.drop (i + 1)).filterMap (Handler.helloOn ws) := by
        rw [List.append_assoc, ← filterMap_eraseIdx _ hi, ← handlers]
        rfl
      have quiet : l.controlsOn ws = [] := by
        by_contra controlled
        have some_waiting : l.hellosOn ws ≠ [] := by simp [waiting]
        exact current.exclusive some_waiting (h.controlled ws controlled)
      exact current.registers waiting left quiet registrations (controls ws) rfl rfl
    · have hellos : (l.follow hub).hellosOn ws' = l.hellosOn ws' := by
        rw [hellosOn, hellosOn, ← filterMap_eraseIdx_none _ hi (if_neg same), ← handlers]
        rfl
      exact current.aside same hellos registrations (controls ws') rfl rfl

/-- No step of the hub loses a hello or a limit of the worker's socket. -/
theorem InStep.hub_step (h : l.InStep) {a : HubAction} {hub : HubProcess}
    (others : l.others a = true) (hstep : l.hub.step a = some hub) : (l.follow hub).InStep := by
  have unchanged : ∀ ws, ((Fifo.on ws l.up).filterMap WorkerToCoordMsg.greeting).Sublist
      ((Fifo.on ws l.up).filterMap WorkerToCoordMsg.greeting) := fun ws => .refl _
  cases HubProcess.step_control hstep with
  | quiet quiet => exact h.same (same_quiet quiet l.up) rfl id rfl h.up unchanged
  | @hello ws workerId limit ctx =>
    refine h.hello l.up rfl rfl rfl rfl (List.Subset.refl _) ?_
    intro ws' hw
    have apart : ws ≠ ws' := by
      rintro rfl
      simp [Link.others, h.socket ws hw] at others
    refine (List.Perm.of_eq ?_).subperm
    simp [hellosOn, follow, Handler.helloOn, apart]
  | called found =>
    obtain ⟨_, hs, _⟩ := Hub.openState_eq_some.mp found
    exact h.called hs rfl rfl rfl rfl
  | upserted hi =>
    exact h.same (same_written hi rfl rfl rfl rfl rfl) rfl id rfl h.up unchanged
  | updated hi =>
    exact h.same (same_written hi rfl rfl rfl rfl rfl) rfl id rfl h.up unchanged
  | lost hi ended =>
    exact h.same (same_written hi ended rfl rfl rfl rfl) rfl id rfl h.up unchanged
  | @registered i ws workerId limit ctx hi =>
    obtain ⟨states, _, handlers, sent, received⟩ := HubProcess.register_fields
      { l.hub with handlers := l.hub.handlers.eraseIdx i } ws workerId limit
    exact h.registers hi states received sent handlers
  | returned hi =>
    exact h.same (same_returned hi (fun _ => rfl) rfl rfl rfl rfl) rfl id rfl h.up unchanged

/-- The hub gets a message of this worker. -/
theorem InStep.up_step (h : l.InStep) {msg : WorkerToCoordMsg}
    {up : List (SocketId × WorkerToCoordMsg)} (taken : Fifo.take ws l.up = some (msg, up))
    {ctx : Ctx} {hub : HubProcess} (hstep : l.hub.step (.message ws msg ctx) = some hub) :
    ({ l with up }.follow hub).InStep := by
  have fewer := Fifo.take_sublist taken
  cases HubProcess.step_control hstep with
  | quiet quiet =>
    refine h.same (same_quiet quiet up) rfl id rfl (fun m hm => h.up m (fewer.subset hm)) ?_
    exact fun ws' => (fewer.filterMap _).filterMap _
  | @hello _ workerId limit _ =>
    refine h.hello up rfl rfl rfl rfl fewer.subset ?_
    intro ws' _
    by_cases same : ws' = ws
    · subst same
      have before : l.hellosOn ws' = (workerId, limit) ::
          ((Fifo.on ws' up).filterMap WorkerToCoordMsg.greeting ++
            l.hub.handlers.filterMap (Handler.helloOn ws')) := by
        rw [hellosOn, Fifo.take_on taken]
        rfl
      rw [before, hellosOn]
      simp only [follow, List.filterMap_append, ← List.append_assoc]
      simp only [Handler.helloOn, List.filterMap_cons, ↓reduceIte, List.filterMap_nil]
      exact (List.perm_append_singleton _ _).subperm
    · refine (List.Perm.of_eq ?_).subperm
      rw [hellosOn, hellosOn]
      simp only [follow, List.filterMap_append, Fifo.take_other taken same]
      simp [Handler.helloOn, Ne.symm same]

theorem emitted_mem {w : WorkerService} {sends : List WorkerToCoordMsg}
    {m : SocketId × WorkerToCoordMsg} (hm : m ∈ Fleet.emitted w sends) :
    w.ws = some m.1 ∧ m.2 ∈ sends := by
  unfold Fleet.emitted at hm
  split at hm
  next ws hw =>
    split at hm
    · obtain ⟨msg, hs, rfl⟩ := List.mem_map.mp hm
      exact ⟨hw, hs⟩
    · cases hm
  next => cases hm

/-- The worker goes on without a hello or a new limit. -/
theorem InStep.steady (h : l.InStep) {p : WorkerService × List WorkerToCoordMsg}
    (steady : l.worker.Steady p) {phase : SocketPhase}
    (earlier : phase = .connecting → l.phase = .connecting)
    {down : List (SocketId × CoordToWorkerMsg)}
    (controls : ∀ ws, (Fifo.on ws down).filterMap CoordToWorkerMsg.control = l.controlsOn ws) :
    { l with
      worker := p.1
      phase
      up := l.up ++ Fleet.emitted p.1 p.2
      down }.InStep := by
  have socket : p.1.ws = l.worker.ws := congrArg (fun view => view.2.1) steady.view
  refine h.same ⟨rfl, List.Subset.refl _, fun _ => rfl, controls⟩ steady.view earlier rfl ?_ ?_
  · intro m hm
    rcases List.mem_append.mp hm with hm | hm
    · exact h.up m hm
    · exact h.socket _ (socket ▸ (emitted_mem hm).1)
  · intro ws
    have none : (Fifo.on ws (Fleet.emitted p.1 p.2)).filterMap WorkerToCoordMsg.greeting = [] := by
      rw [List.filterMap_eq_nil_iff]
      exact fun msg hm => steady.sends msg (emitted_mem (Fifo.mem_on.mp hm)).2
    simp [none]

theorem emitted_nil (w : WorkerService) : Fleet.emitted w [] = [] := by
  unfold Fleet.emitted
  split
  · split <;> rfl
  · rfl

/-- The worker makes a new socket. -/
theorem InStep.connect (h : l.InStep) (fresh : l.fresh ws = true) {w : WorkerService}
    (socket : w.ws = some ws) :
    { l with
      worker := w
      phase := .connecting
      sockets := l.sockets ++ [ws]
      up := l.up ++ Fleet.emitted w [] }.InStep := by
  simp only [Link.fresh, Bool.and_eq_true, decide_eq_true_eq, List.all_eq_true] at fresh
  obtain ⟨new, others⟩ := fresh
  have unheard : ws ∉ l.hub.received.map Prod.fst := by
    intro hw
    obtain ⟨m, hm, same⟩ := List.mem_map.mp hw
    exact others m hm same
  have unregistered : ws ∉ l.registrations.map Prod.fst := fun hw => unheard (h.registered hw)
  have silent : Fifo.on ws l.up = [] := by
    rw [Fifo.on_eq_nil]
    rintro m hm rfl
    exact new (h.up m hm)
  have ungreeted : l.hub.handlers.filterMap (Handler.helloOn ws) = [] := by
    by_contra greets
    exact unheard (h.greeted ws greets)
  rw [emitted_nil, List.append_nil]
  refine ⟨⟨h.registered, h.greeted, h.controlled, ?_, ?_⟩, ?_⟩
  · exact fun m hm => List.mem_append_left _ (h.up m hm)
  · intro ws' hw
    cases hw.symm.trans socket
    exact List.mem_append_right _ (List.mem_singleton_self ws)
  · intro ws' hw
    cases hw.symm.trans socket
    have none : ∀ w : WorkerService, { l with
        worker := w
        phase := .connecting
        sockets := l.sockets ++ [ws] }.hellosOn ws = [] := by
      intro w
      rw [hellosOn]
      simp only [silent, ungreeted]
      rfl
    refine ⟨by simp [none], fun _ => ⟨none w, unregistered⟩, by simp [none],
      fun _ => unregistered, ?_, ?_⟩
    · exact fun r _ hr => absurd (List.mem_of_getElem? hr) unregistered
    · exact fun p hp named => absurd (List.mem_map.mpr ⟨p, hp, named⟩) unregistered

/-- The open event of a new socket: the only one to send a hello on it. -/
theorem InStep.opened (h : l.InStep) (socket : l.worker.ws = some ws)
    (connecting : l.phase = .connecting) :
    { l with
      worker := { l.worker with wsOpen := true }
      phase := .opened
      up := l.up ++ [(ws, l.worker.hello)] }.InStep := by
  have current := h.current ws socket
  obtain ⟨none, unregistered⟩ := current.connecting connecting
  have one : { l with
      worker := { l.worker with wsOpen := true }
      phase := .opened
      up := l.up ++ [(ws, l.worker.hello)] }.hellosOn ws =
        [(l.worker.workerId, l.worker.concurrencyLimit)] := by
    obtain ⟨silent, ungreeted⟩ := List.append_eq_nil_iff.mp none
    rw [hellosOn]
    simp only [Fifo.on_append, List.filterMap_append, silent, ungreeted]
    simp [Fifo.on, WorkerService.hello, WorkerToCoordMsg.greeting]
  refine ⟨⟨h.registered, h.greeted, h.controlled, ?_, h.socket⟩, ?_⟩
  · intro m hm
    rcases List.mem_append.mp hm with hm | hm
    · exact h.up m hm
    · rw [List.mem_singleton.mp hm]
      exact h.socket ws socket
  · intro ws' hw
    cases hw.symm.trans socket
    refine ⟨by simp [one], (fun never => by cases never), ?_, fun _ => unregistered,
      current.unique, current.registered⟩
    rw [one]
    exact fun p hp => List.mem_singleton.mp hp

/-- The worker gets a new limit. -/
theorem InStep.limited (h : l.InStep) (socket : l.worker.ws = some ws) {limit : Int}
    {down : List (SocketId × CoordToWorkerMsg)}
    (taken : Fifo.take ws l.down = some (.setConcurrency limit, down)) :
    { l with worker := { l.worker with concurrencyLimit := limit }, down }.InStep := by
  have before : l.controlsOn ws = limit :: (Fifo.on ws down).filterMap CoordToWorkerMsg.control := by
    rw [controlsOn, Fifo.take_on taken]
    rfl
  refine ⟨⟨h.registered, h.greeted, ?_, h.up, h.socket⟩, ?_⟩
  · intro ws' left
    refine h.controlled ws' fun none => left ?_
    have fewer := ((Fifo.take_sublist taken).filterMap fun m =>
      if m.1 = ws' then some m.2 else Option.none).filterMap CoordToWorkerMsg.control
    exact List.sublist_nil.mp (none ▸ fewer)
  · intro ws' hw
    cases hw.symm.trans socket
    have current := h.current ws socket
    have registered : ws ∈ l.registrations.map Prod.fst :=
      h.controlled ws (by simp [before])
    have none : l.hellosOn ws = [] := by
      by_contra waiting
      exact current.exclusive waiting registered
    refine ⟨current.one, current.connecting, ?_, current.exclusive, current.unique, ?_⟩
    · intro p hp
      have waiting : p ∈ l.hellosOn ws := hp
      rw [none] at waiting
      cases waiting
    · intro p hp named
      have content := current.registered p hp named
      rw [before, List.getLast?_cons, Option.getD_some] at content
      exact content

/-- A message that reaches the worker brings its limit nearer to that of the hub. -/
theorem InStep.down_step (h : l.InStep) (socket : l.worker.ws = some ws) {msg : CoordToWorkerMsg}
    {down : List (SocketId × CoordToWorkerMsg)} (taken : Fifo.take ws l.down = some (msg, down))
    (hstep : { l with down }.react (.message msg) = some l') : l'.InStep := by
  cases hstep
  cases hc : msg.control with
  | none =>
    refine h.steady (WorkerService.route_steady l.worker hc) id fun ws' => ?_
    by_cases same : ws' = ws
    · rw [controlsOn, same, Fifo.take_on taken, List.filterMap_cons, hc]
    · rw [controlsOn, Fifo.take_other taken same]
  | some limit =>
    cases msg with
    | setConcurrency limit' =>
      have limited := h.limited socket taken
      simp only [WorkerService.route, emitted_nil, List.append_nil]
      exact limited
    | jobDispatch | jobAck | ping => cases hc

/-- Nothing that the worker does by itself loses a hello or a limit of its socket. -/
theorem InStep.worker_step (h : l.InStep) {e : WorkerEvent} {moved : Link}
    (moves : l.moves e = some moved) (hstep : moved.react e = some l') : l'.InStep := by
  have controls : ∀ ws, (Fifo.on ws l.down).filterMap CoordToWorkerMsg.control =
      l.controlsOn ws := fun _ => rfl
  cases e with
  | start ws =>
    obtain ⟨⟨_, fresh⟩, heq⟩ := Option.ite_none_right_eq_some.mp moves
    cases heq
    cases hstep
    exact h.connect fresh rfl
  | reconnect timer ws =>
    obtain ⟨fresh, heq⟩ := Option.ite_none_right_eq_some.mp moves
    cases heq
    obtain ⟨p, hp, rfl⟩ := Option.map_eq_some_iff.mp hstep
    obtain ⟨_, heq⟩ := Option.ite_none_right_eq_some.mp hp
    cases heq
    exact h.connect fresh rfl
  | opened ws =>
    obtain ⟨⟨socket, connecting⟩, heq⟩ := Option.ite_none_right_eq_some.mp moves
    cases heq
    cases hstep
    have opened := h.opened socket connecting
    simpa [socket, Fleet.emitted] using opened
  | closed ws =>
    obtain ⟨_, heq⟩ := Option.ite_none_right_eq_some.mp moves
    cases heq
    obtain ⟨p, hp, rfl⟩ := Option.map_eq_some_iff.mp hstep
    exact h.steady (WorkerService.closed_handled hp) (fun never => by cases never) controls
  | message => cases moves
  | stop =>
    cases moves
    cases hstep
    exact h.steady (.silent (WorkerService.stop_view l.worker)) id controls
  | completed i result =>
    cases moves
    obtain ⟨p, hp, rfl⟩ := Option.map_eq_some_iff.mp hstep
    exact h.steady (WorkerService.completed_handled hp) id controls
  | threw i error =>
    cases moves
    obtain ⟨p, hp, rfl⟩ := Option.map_eq_some_iff.mp hstep
    exact h.steady (WorkerService.threw_handled hp) id controls
  | fire timer =>
    cases moves
    obtain ⟨p, hp, rfl⟩ := Option.map_eq_some_iff.mp hstep
    exact h.steady (WorkerService.fire_steady hp) id controls

/-- Worker and hub stay in step. -/
theorem InStep.step (h : l.InStep) {a : Action} (hstep : Link.step l a = some l') :
    l'.InStep := by
  cases a with
  | hub a =>
    obtain ⟨others, taken⟩ := Option.ite_none_right_eq_some.mp hstep
    obtain ⟨hub, hub_step, rfl⟩ := Option.map_eq_some_iff.mp taken
    exact h.hub_step others hub_step
  | worker e =>
    obtain ⟨moved, moves, hstep⟩ := Option.bind_eq_some_iff.mp hstep
    exact h.worker_step moves hstep
  | up ws ctx =>
    obtain ⟨⟨msg, up⟩, taken, handled⟩ := Option.bind_eq_some_iff.mp hstep
    obtain ⟨hub, hub_step, rfl⟩ := Option.map_eq_some_iff.mp handled
    exact h.up_step taken hub_step
  | down =>
    simp only [Link.step] at hstep
    split at hstep
    next ws socket _ =>
      obtain ⟨⟨msg, down⟩, taken, hstep⟩ := Option.bind_eq_some_iff.mp hstep
      exact h.down_step socket taken hstep
    next => cases hstep

end Link

end Dispatcher
