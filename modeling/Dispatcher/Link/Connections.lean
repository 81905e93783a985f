import Dispatcher.Model.Link
import Dispatcher.Worker.Connections

namespace Dispatcher
open Tables Runs

namespace WorkerService

variable {w w' : WorkerService} {e : WorkerEvent} {sends : List WorkerToCoordMsg}

theorem Kept.fresh_handle (kept : w.Kept) {j : JobId} {job : InFlightJob}
    (present : w.inFlight.lookup j = some job) {id : TimerId} (held : job.Holds id) :
    id < w.nextTimer := by
  have handles := kept.upkeep.handles
  rcases held with retry | heartbeat
  · exact (handles.retry j job id present retry).1
  · obtain ⟨id', same, armed⟩ := handles.beating j job present
    cases heartbeat.symm.trans same
    exact handles.used _ armed

/-- A reconnect timer that is new gets a handle that no entry has. -/
theorem handle_apart (kept : w.Kept) (apart : w.Apart) (h : w.handle e = some (w', sends))
    (alive : e ≠ .stop) (armed : ∀ t ∈ w'.reconnects, t ∈ w.reconnects ∨
      t.id = w.nextTimer ∧ w'.inFlight = w.inFlight) : w'.Apart := by
  intro t ht j job' present held
  rcases armed t ht with old | ⟨new, same⟩
  · have taken : step w e = some w' := by simp [step, h]
    rcases (step_view kept.named taken alive).holds present held with later | ⟨job, before, held⟩
    · exact absurd (kept.named.used t (List.mem_of_mem_filter old)) (Nat.not_lt.mpr later)
    · exact apart t old j job before held
  · rw [same] at present
    exact absurd (kept.fresh_handle present held) (new ▸ Nat.lt_irrefl _)

theorem scheduleReconnect_running (running : w.running = true) :
    w.scheduleReconnect.reconnects = w.reconnects ++ [⟨w.nextTimer, .reconnect⟩] ∧
      w.scheduleReconnect.reconnectTimer = some w.nextTimer := by
  simp [scheduleReconnect, running, setTimer, reconnects, List.filter_append]

/-- `stop` takes the timer of `reconnectTimer` away, and arms none. -/
theorem stop_reconnects (w : WorkerService) :
    ∀ t ∈ w.stop.reconnects, t ∈ w.reconnects ∧ some t.id ≠ w.reconnectTimer := by
  obtain ⟨timers, fewer, same⟩ :=
    stop_timers ({ w with running := false }.clearTimer w.reconnectTimer) w.inFlight.rows
  have stopped : w.stop.timers = timers := congrArg WorkerService.timers same
  intro t ht
  obtain ⟨armed, reconnect⟩ := List.mem_filter.mp ht
  rw [stopped] at armed
  obtain ⟨before, other⟩ := List.mem_filter.mp (fewer.subset armed)
  exact ⟨List.mem_filter.mpr ⟨before, reconnect⟩, of_decide_eq_true other⟩

theorem stop_fields (w : WorkerService) : w.stop.running = false ∧ w.stop.ws = w.ws := by
  obtain ⟨timers, _, same⟩ :=
    stop_timers ({ w with running := false }.clearTimer w.reconnectTimer) w.inFlight.rows
  have running : w.stop.running = false := (congrArg WorkerService.running same :)
  have ws : w.stop.ws = w.ws := (congrArg WorkerService.ws same :)
  exact ⟨running, ws⟩

theorem closed_fields {ws : SocketId} (h : w.handle (.closed ws) = some (w', sends)) :
    w'.running = w.running ∧ w'.ws = w.ws := by
  have kept : ∀ u : WorkerService,
      u.scheduleReconnect.running = u.running ∧ u.scheduleReconnect.ws = u.ws := by
    intro u
    unfold scheduleReconnect
    split <;> exact ⟨rfl, rfl⟩
  obtain ⟨same, _⟩ := Prod.mk.inj (Option.some.inj h)
  rw [← same]
  obtain ⟨running, socket⟩ := kept (if w.ws = some ws then { w with wsOpen := false } else w)
  rw [running, socket]
  split <;> exact ⟨rfl, rfl⟩

end WorkerService

/-- How far a worker has got with its connection, by the phase of its last socket. -/
inductive Stage (w : WorkerService) (phase : SocketPhase) : Prop where
  | unstarted {workerId : WorkerId} {limit : Int} (fresh : w = .fresh workerId limit)
      (phase : phase = .closed)
  | live (running : w.running = true) (used : w.ws ≠ none) (phase : phase ≠ .closed)
      (unarmed : w.reconnects = []) (kept : w.Kept)
  /-- The timer that `reconnectTimer` names, and no other one, is armed. -/
  | waiting {t : TimerId} (running : w.running = true) (used : w.ws ≠ none) (phase : phase = .closed)
      (armed : w.reconnects = [⟨t, .reconnect⟩]) (handle : w.reconnectTimer = some t) (kept : w.Kept)
      (apart : w.Apart)
  | stopped (running : w.running = false) (used : w.ws ≠ none) (unarmed : w.reconnects = [])
      (named : w.TimersNamed)

namespace Stage

variable {w w' : WorkerService} {phase : SocketPhase} {e : WorkerEvent} {sends : List WorkerToCoordMsg}

theorem calm (h : Stage w phase) {phase' : SocketPhase} (handled : w.handle e = some (w', sends))
    (other : e.connection = false) (used : w.ws ≠ none) (same : phase' = .closed ↔ phase = .closed) :
    Stage w' phase' := by
  have alive : e ≠ .stop := by
    rintro rfl
    cases other
  have taken : w.step e = some w' := by simp [WorkerService.step, handled]
  cases h with
  | unstarted fresh =>
    subst fresh
    exact absurd rfl used
  | live running used phase unarmed kept =>
    have apart : w.Apart := by simp [WorkerService.Apart, unarmed]
    have calm := WorkerService.handle_calm kept.named apart handled other
    exact .live (calm.running.trans running) (calm.ws ▸ used) (fun closed => phase (same.mp closed))
      (calm.armed.trans unarmed) (kept.step taken alive)
  | waiting running used phase armed handle kept apart =>
    have calm := WorkerService.handle_calm kept.named apart handled other
    refine .waiting (calm.running.trans running) (calm.ws ▸ used) (same.mpr phase)
      (calm.armed.trans armed) (calm.handle.trans handle) (kept.step taken alive) ?_
    exact WorkerService.handle_apart kept apart handled alive fun t ht => .inl (calm.armed ▸ ht)
  | stopped running used unarmed named =>
    have apart : w.Apart := by simp [WorkerService.Apart, unarmed]
    have calm := WorkerService.handle_calm named apart handled other
    exact .stopped (calm.running.trans running) (calm.ws ▸ used) (calm.armed.trans unarmed)
      (WorkerService.handle_step named handled).1

/-- The socket closes: a worker that runs arms one timer. -/
theorem closed (h : Stage w phase) {ws : SocketId} (current : w.ws = some ws)
    (open_ : phase ≠ .closed) (handled : w.handle (.closed ws) = some (w', sends)) :
    Stage w' .closed := by
  have taken : w.step (.closed ws) = some w' := by simp [WorkerService.step, handled]
  let u : WorkerService := { w with wsOpen := false }
  have same : w' = u.scheduleReconnect := by
    simp only [WorkerService.handle, if_pos current, Option.some.injEq, Prod.mk.injEq] at handled
    exact handled.1.symm
  cases h with
  | unstarted fresh phase => exact absurd phase open_
  | waiting running used phase => exact absurd phase open_
  | live running used _ unarmed kept =>
    have apart : w.Apart := by simp [WorkerService.Apart, unarmed]
    obtain ⟨armed, handle⟩ := WorkerService.scheduleReconnect_running (w := u) running
    have none : u.reconnects = [] := unarmed
    rw [none, List.nil_append, ← same] at armed
    rw [← same] at handle
    have fields : w'.running = w.running ∧ w'.ws = w.ws ∧ w'.inFlight = w.inFlight := by
      rw [same]
      simp [WorkerService.scheduleReconnect, u, running, WorkerService.setTimer]
    refine .waiting (fields.1.trans running) (fields.2.1 ▸ used) rfl armed handle
      (kept.step taken (by simp)) ?_
    refine WorkerService.handle_apart kept apart handled (by simp) fun t ht => .inr ?_
    rw [armed] at ht
    cases List.mem_singleton.mp ht
    exact ⟨rfl, fields.2.2⟩
  | stopped running used unarmed named =>
    have idle : u.scheduleReconnect = u := by simp [WorkerService.scheduleReconnect, u, running]
    rw [same, idle]
    exact .stopped running used unarmed (named.same rfl rfl)

theorem stop (h : Stage w phase) : Stage w.stop phase := by
  obtain ⟨running, ws⟩ := WorkerService.stop_fields w
  have stopped (used : w.ws ≠ none) (named : w.TimersNamed)
      (gone : ∀ t ∈ w.reconnects, some t.id = w.reconnectTimer) : Stage w.stop phase := by
    refine .stopped running (ws ▸ used) (List.eq_nil_iff_forall_not_mem.mpr fun t ht => ?_)
      (WorkerService.handle_step (e := .stop) named rfl).1
    obtain ⟨armed, other⟩ := WorkerService.stop_reconnects w t ht
    exact other (gone t armed)
  cases h with
  | unstarted fresh phase =>
    subst fresh
    exact .unstarted rfl phase
  | live running used _ unarmed kept => exact stopped used kept.named (by simp [unarmed])
  | waiting running used _ armed handle kept => exact stopped used kept.named (by simp [armed, handle])
  | stopped running used unarmed named => exact stopped used named (by simp [unarmed])

/-- The timer fires, and takes itself away. -/
theorem reconnect (h : Stage w phase) {timer : TimerId} {ws : SocketId}
    (handled : w.handle (.reconnect timer ws) = some (w', sends)) :
    phase = .closed ∧ w.running = true ∧ Stage w' .connecting := by
  have taken : w.step (.reconnect timer ws) = some w' := by simp [WorkerService.step, handled]
  obtain ⟨fires, same⟩ := Option.ite_none_right_eq_some.mp handled
  obtain ⟨rfl, rfl⟩ := Prod.mk.inj (Option.some.inj same)
  have armed : ⟨timer, .reconnect⟩ ∈ w.reconnects := List.mem_filter.mpr ⟨fires, rfl⟩
  cases h with
  | unstarted fresh =>
    subst fresh
    cases fires
  | live _ _ _ unarmed | stopped _ _ unarmed =>
    rw [unarmed] at armed
    cases armed
  | waiting running used phase one _ kept =>
    have used : ((w.clearTimer (some timer)).connect ws).ws ≠ none := by simp [WorkerService.connect]
    refine ⟨phase, running, .live running used (by simp) ?_ (kept.step taken (by simp))⟩
    rw [one] at armed
    cases List.mem_singleton.mp armed
    refine List.eq_nil_iff_forall_not_mem.mpr fun t ht => ?_
    obtain ⟨left, reconnect⟩ := List.mem_filter.mp ht
    obtain ⟨before, other⟩ := List.mem_filter.mp left
    have last : t ∈ w.reconnects := List.mem_filter.mpr ⟨before, reconnect⟩
    rw [one] at last
    cases List.mem_singleton.mp last
    simp at other

theorem unused (h : Stage w phase) (never : w.ws = none) :
    ∃ workerId limit, w = .fresh workerId limit ∧ phase = .closed := by
  cases h with
  | unstarted fresh phase => exact ⟨_, _, fresh, phase⟩
  | live _ used | waiting _ used | stopped _ used => exact absurd never used

theorem off (h : Stage w phase) (off : w.running = false) (used : w.ws ≠ none) :
    w.reconnects = [] ∧ w.TimersNamed := by
  cases h with
  | unstarted fresh =>
    rw [fresh] at used
    exact absurd rfl used
  | live running | waiting running =>
    rw [running] at off
    cases off
  | stopped _ _ unarmed named => exact ⟨unarmed, named⟩

theorem used (h : Stage w phase) (open_ : phase ≠ .closed) : w.ws ≠ none := by
  cases h with
  | unstarted _ phase => exact absurd phase open_
  | live _ used | waiting _ used | stopped _ used => exact used

/-- A worker that is to connect again has a timer for it. -/
theorem armed (h : Stage w .closed) (running : w.running = true) :
    ∃ t, ⟨t, .reconnect⟩ ∈ w.timers := by
  cases h with
  | unstarted fresh =>
    rw [fresh] at running
    cases running
  | live _ _ phase => exact absurd rfl phase
  | @waiting t _ _ _ armed =>
    have mem : ⟨t, .reconnect⟩ ∈ w.reconnects := by
      rw [armed]
      exact List.mem_singleton_self _
    exact ⟨t, List.mem_of_mem_filter mem⟩
  | stopped off =>
    rw [off] at running
    cases running

theorem start (h : Stage w phase) (never : w.ws = none) {ws : SocketId}
    (handled : w.handle (.start ws) = some (w', sends)) : Stage w' .connecting := by
  have taken : w.step (.start ws) = some w' := by simp [WorkerService.step, handled]
  obtain ⟨workerId, limit, rfl, _⟩ := h.unused never
  have kept := (WorkerService.fresh_kept workerId limit).step taken (by simp)
  cases handled
  exact .live rfl (by simp [WorkerService.connect]) (by simp) rfl kept

end Stage

namespace Link

variable {l l' : Link}

theorem react_worker {e : WorkerEvent} (h : l.react e = some l') :
    ∃ sends, l.worker.handle e = some (l'.worker, sends) ∧ l'.phase = l.phase := by
  obtain ⟨p, handled, rfl⟩ := Option.map_eq_some_iff.mp h
  exact ⟨p.2, handled, rfl⟩

def Action.connects : Action → Bool
  | .worker (.start _) | .worker (.reconnect ..) => true
  | _ => false

/-- Every step takes the connection from one stage to the next. -/
theorem stage_step (h : Stage l.worker l.phase) {a : Action} (taken : step l a = some l') :
    Stage l'.worker l'.phase := by
  cases a with
  | hub a =>
    obtain ⟨_, taken⟩ := Option.ite_none_right_eq_some.mp taken
    obtain ⟨hub, _, rfl⟩ := Option.map_eq_some_iff.mp taken
    exact h
  | up ws ctx =>
    obtain ⟨⟨msg, up⟩, _, taken⟩ := Option.bind_eq_some_iff.mp taken
    obtain ⟨hub, _, rfl⟩ := Option.map_eq_some_iff.mp taken
    exact h
  | down =>
    simp only [step] at taken
    split at taken
    next ws current opened =>
      obtain ⟨⟨msg, down⟩, _, taken⟩ := Option.bind_eq_some_iff.mp taken
      obtain ⟨sends, handled, phase⟩ := react_worker taken
      exact h.calm handled rfl (by simp [current]) (by rw [phase])
    next => cases taken
  | worker e =>
    obtain ⟨m, moved, taken⟩ := Option.bind_eq_some_iff.mp taken
    obtain ⟨sends, handled, phase⟩ := react_worker taken
    rw [phase]
    cases e with
    | message => cases moved
    | start ws =>
      obtain ⟨⟨never, _⟩, same⟩ := Option.ite_none_right_eq_some.mp moved
      cases same
      exact h.start never handled
    | reconnect timer ws =>
      obtain ⟨_, same⟩ := Option.ite_none_right_eq_some.mp moved
      cases same
      exact (h.reconnect handled).2.2
    | opened ws =>
      obtain ⟨⟨current, connecting⟩, same⟩ := Option.ite_none_right_eq_some.mp moved
      cases same
      exact h.calm handled rfl (by simp [current]) (by simp [connecting])
    | closed ws =>
      obtain ⟨⟨current, open_⟩, same⟩ := Option.ite_none_right_eq_some.mp moved
      cases same
      exact h.closed current open_ handled
    | stop =>
      cases moved
      obtain ⟨same, _⟩ := Prod.mk.inj (Option.some.inj handled)
      exact same ▸ h.stop
    | completed | threw | fire =>
      cases moved
      by_cases never : l.worker.ws = none
      · obtain ⟨workerId, limit, fresh, _⟩ := h.unused never
        rw [fresh] at handled
        cases handled
      · exact h.calm handled rfl never Iff.rfl

theorem stage_init (workerId : WorkerId) (limit : Int) (db : Db)
    (workerReg : Table WorkerReg WorkerId WorkerReg.workerId) :
    Stage (init workerId limit db workerReg).worker (init workerId limit db workerReg).phase :=
  .unstarted rfl rfl

end Link

end Dispatcher
