import Dispatcher.Hub.Entries

namespace Dispatcher
open Tables

/-- A handler that writes to `WorkerReg`. -/
def Handler.control : Handler → Bool
  | .onHello .. | .setConcurrency .. => true
  | .onMessage .. => false

def Handler.state : Handler → Option StateRef
  | .onMessage _ state _ _ => state
  | .onHello .. | .setConcurrency .. => none

def CoordToWorkerMsg.dispatch : CoordToWorkerMsg → Option (JobId × Token)
  | .jobDispatch msg => some (msg.jobId, msg.token)
  | .jobAck _ | .setConcurrency _ | .ping => none

def CoordToWorkerMsg.control : CoordToWorkerMsg → Option Int
  | .setConcurrency limit => some limit
  | .jobDispatch _ | .jobAck _ | .ping => none

/-- What all but `inFlight` of a `WorkerState` says. -/
def WorkerState.registration (state : WorkerState) : SocketId × WorkerId × Int :=
  (state.ws, state.workerId, state.concurrencyLimit)

namespace HubProcess

/-- What leaves every limit alone; workers may leave the map. Messages are counted for
registered sockets, and jobs are sent on them. -/
structure Quiet (s s' : HubProcess) : Prop where
  registrations : s'.hub.states.map WorkerState.registration =
    s.hub.states.map WorkerState.registration
  entries : ∀ workerId, s'.hub.get workerId = s.hub.get workerId ∨ s'.hub.get workerId = none
  handlers : s'.handlers.filter Handler.control = s.handlers.filter Handler.control
  states : ∀ handler ∈ s'.handlers, ∀ r, handler.state = some r →
    (∃ earlier ∈ s.handlers, earlier.state = some r) ∨ r < s.hub.states.length
  workerReg : s'.workerReg = s.workerReg
  sent : ∃ more, s'.sent = s.sent ++ more ∧ (∀ m ∈ more, m.2.control = none) ∧
    ∀ m ∈ more, m.2.dispatch ≠ none → m.1 ∈ s.hub.states.map WorkerState.ws
  received : ∃ more, s'.received = s.received ++ more

inductive ControlStep (s : HubProcess) : HubAction → HubProcess → Prop where
  | quiet (h : Quiet s s') : ControlStep s a s'
  | hello : ControlStep s (.message ws (.workerHello workerId limit) ctx) { s with
      received := s.received ++ [(ws, .workerHello workerId limit)]
      ids := s.ids ++ [(ws, workerId)]
      handlers := s.handlers ++ [.onHello ws workerId limit false] }
  | called {workerId : WorkerId} {r : StateRef} {state : WorkerState} {limit : Int}
      (found : s.hub.openState s.isOpen workerId = some (r, state)) :
      ControlStep s (.setConcurrency workerId limit) { s with
        hub := s.hub.modify r (fun state => { state with concurrencyLimit := limit }) fun _ => rfl
        sent := s.sent ++ [(state.ws, .setConcurrency limit)]
        handlers := s.handlers ++ [.setConcurrency workerId limit false] }
  | upserted {i : Nat} {ws : SocketId} {workerId : WorkerId} {limit : Int}
      (hi : s.handlers[i]? = some (.onHello ws workerId limit false)) :
      ControlStep s (.write i) { s.upsert workerId limit with
        handlers := s.handlers.set i (.onHello ws workerId limit true) }
  | updated {i : Nat} {workerId : WorkerId} {limit : Int}
      (hi : s.handlers[i]? = some (.setConcurrency workerId limit false)) :
      ControlStep s (.write i) { s.update workerId limit with
        handlers := s.handlers.set i (.setConcurrency workerId limit true) }
  | lost {i : Nat} {handler handler' : Handler} (hi : s.handlers[i]? = some handler)
      (ended : handler.answered = some handler') :
      ControlStep s (.writeFails i) { s with handlers := s.handlers.set i handler' }
  | registered {i : Nat} {ws : SocketId} {workerId : WorkerId} {limit : Int} {ctx : Ctx}
      (hi : s.handlers[i]? = some (.onHello ws workerId limit true)) :
      ControlStep s (.resume i ctx)
        ({ s with handlers := s.handlers.eraseIdx i }.register ws workerId limit)
  | returned {i : Nat} {workerId : WorkerId} {limit : Int} {ctx : Ctx}
      (hi : s.handlers[i]? = some (.setConcurrency workerId limit true)) :
      ControlStep s (.resume i ctx) { s with handlers := s.handlers.eraseIdx i }

/-- What changes nothing but the hub's map. -/
theorem Quiet.within {s s' : HubProcess} (registrations :
      s'.hub.states.map WorkerState.registration = s.hub.states.map WorkerState.registration)
    (entries : ∀ workerId, s'.hub.get workerId = s.hub.get workerId ∨ s'.hub.get workerId = none)
    (handlers : s'.handlers = s.handlers) (workerReg : s'.workerReg = s.workerReg)
    (sent : s'.sent = s.sent) (received : s'.received = s.received) : Quiet s s' where
  registrations := registrations
  entries := entries
  handlers := by rw [handlers]
  states := fun handler hh _ hr => .inl ⟨handler, handlers ▸ hh, hr⟩
  workerReg := workerReg
  sent := ⟨[], by simp [sent], by simp, by simp⟩
  received := ⟨[], by simp [received]⟩

/-- What changes nothing but handlers of messages. -/
theorem Quiet.around {s s' : HubProcess} (hub : s'.hub = s.hub)
    (handlers : s'.handlers.filter Handler.control = s.handlers.filter Handler.control)
    (states : ∀ handler ∈ s'.handlers, ∀ r, handler.state = some r →
      (∃ earlier ∈ s.handlers, earlier.state = some r) ∨ r < s.hub.states.length)
    (workerReg : s'.workerReg = s.workerReg)
    (sent : ∃ more, s'.sent = s.sent ++ more ∧ ∀ m ∈ more, m.2.control = none ∧ m.2.dispatch = none)
    (received : ∃ more, s'.received = s.received ++ more) : Quiet s s' := by
  obtain ⟨more, hs, quiet⟩ := sent
  refine ⟨by rw [hub], fun _ => .inl (by rw [hub]), handlers, states, workerReg, ⟨more, hs, ?_, ?_⟩,
    received⟩
  · exact fun m hm => (quiet m hm).1
  · exact fun m hm dispatched => absurd (quiet m hm).2 dispatched

theorem Quiet.refl (s : HubProcess) : Quiet s s :=
  .within rfl (fun _ => .inl rfl) rfl rfl rfl rfl

theorem Quiet.sockets {s s' : HubProcess} (h : Quiet s s') :
    s'.hub.states.map WorkerState.ws = s.hub.states.map WorkerState.ws := by
  have same := congrArg (List.map Prod.fst) h.registrations
  rw [List.map_map, List.map_map] at same
  exact same

theorem Quiet.trans {s s' s'' : HubProcess} (h : Quiet s s') (h' : Quiet s' s'') :
    Quiet s s'' := by
  obtain ⟨sent, hs, quiet, jobs⟩ := h.sent
  obtain ⟨sent', hs', quiet', jobs'⟩ := h'.sent
  obtain ⟨received, hr⟩ := h.received
  obtain ⟨received', hr'⟩ := h'.received
  refine ⟨h'.registrations.trans h.registrations, ?_, h'.handlers.trans h.handlers, ?_,
    h'.workerReg.trans h.workerReg, ⟨sent ++ sent', ?_, ?_, ?_⟩, ⟨received ++ received', ?_⟩⟩
  · intro workerId
    rcases h'.entries workerId with same | none
    · rw [same]
      exact h.entries workerId
    · exact .inr none
  · intro handler hh r hr
    rcases h'.states handler hh r hr with ⟨earlier, he, hr⟩ | bound
    · exact h.states earlier he r hr
    · have length := congrArg List.length h.sockets
      rw [List.length_map, List.length_map] at length
      exact .inr (length ▸ bound)
  · rw [hs', hs, List.append_assoc]
  · intro m hm
    rcases List.mem_append.mp hm with hm | hm
    · exact quiet m hm
    · exact quiet' m hm
  · intro m hm dispatched
    rcases List.mem_append.mp hm with hm | hm
    · exact jobs m hm dispatched
    · rw [← h.sockets]
      exact jobs' m hm dispatched
  · rw [hr', hr, List.append_assoc]

theorem Quiet.modified (s : HubProcess) (r : StateRef) {f : WorkerState → WorkerState}
    (hf : ∀ state, (f state).workerId = state.workerId)
    (same : ∀ state, (f state).registration = state.registration) :
    Quiet s { s with hub := s.hub.modify r f hf } := by
  refine .within ?_ (fun _ => .inl rfl) rfl rfl rfl rfl
  apply List.ext_getElem?
  intro r'
  rw [List.getElem?_map, List.getElem?_map, Hub.map_modify s.hub r r' hf same]

theorem Quiet.shut (s : HubProcess) (ws : SocketId) : Quiet s (s.close ws) :=
  .within rfl (fun _ => .inl rfl) rfl rfl rfl rfl

theorem Quiet.left (s : HubProcess) (workerId : WorkerId) (ws : SocketId) :
    Quiet s { s with hub := s.hub.deregister workerId ws } := by
  refine .within (by rw [Hub.states_deregister]) ?_ rfl rfl rfl rfl
  exact fun workerId' => Hub.get_deregister s.hub workerId ws workerId'

theorem pingAll_quiet (s : HubProcess) : Quiet s s.pingAll := by
  refine pingAll_invariant (P := Quiet s) s (.refl s) ?_ ?_
  · intro s' ws h
    refine h.trans (.around rfl rfl (fun handler hh _ hr => .inl ⟨handler, hh, hr⟩) rfl
      ⟨[(ws, .ping)], rfl, ?_⟩ ⟨[], by simp⟩)
    intro m hm
    cases List.mem_singleton.mp hm
    exact ⟨rfl, rfl⟩
  · exact fun s' workerId ws h => h.trans (.left s' workerId ws)

/-- A handler of another message controls nothing. -/
theorem finish_quiet {s : HubProcess} {i n : Nat} {state : Option StateRef}
    {settled settles : Bool} {task : Task} {o : Outcome}
    (hi : s.handlers[i]? = some (.onMessage n state settled task))
    (sent : ∀ m ∈ o.sent, m.2.control = none ∧ m.2.dispatch = none) :
    Quiet s (s.finish i n state settled settles o) := by
  have handlers : (s.finish i n state settled settles o).handlers.filter Handler.control =
      s.handlers.filter Handler.control := by
    have next : (o.next.map fun task => Handler.onMessage n state (settled || settles) task).filter
        Handler.control = [] := by
      rw [List.filter_eq_nil_iff]
      intro handler hh
      obtain ⟨_, _, rfl⟩ := List.mem_map.mp hh
      exact Bool.false_ne_true
    obtain ⟨whole, erased, _⟩ := split_at hi
    simp only [finish]
    rw [List.filter_append, next, List.append_nil, erased]
    conv_rhs => rw [whole]
    simp [Handler.control]
  have states : ∀ handler ∈ (s.finish i n state settled settles o).handlers, ∀ r,
      handler.state = some r →
        (∃ earlier ∈ s.handlers, earlier.state = some r) ∨ r < s.hub.states.length := by
    intro handler hh r hr
    rcases List.mem_append.mp hh with hh | hh
    · exact .inl ⟨handler, List.mem_of_mem_eraseIdx hh, hr⟩
    · obtain ⟨_, _, rfl⟩ := List.mem_map.mp hh
      exact .inl ⟨_, List.mem_of_getElem? hi, hr⟩
  have rest : Quiet s { s.finish i n state settled settles o with hub := s.hub } :=
    .around rfl handlers states rfl ⟨o.sent, rfl, sent⟩ ⟨[], by simp [finish]⟩
  refine rest.trans ?_
  unfold finish
  cases state with
  | none => exact .refl _
  | some r =>
    cases settles with
    | false => exact .refl _
    | true =>
      exact .modified (f := fun state => { state with inFlight := state.inFlight - 1 }) _ r
        (fun _ => rfl) fun _ => rfl

/-- No handler of a message sends a job or a limit. -/
theorem resume_undispatched {t : Task} {ctx : Ctx} {db : Db} {m : SocketId × CoordToWorkerMsg}
    (hm : m ∈ (t.resume ctx (fun _ => none) db).sent) :
    m.2.control = none ∧ m.2.dispatch = none := by
  obtain ⟨jobId, ack⟩ := resume_acksOnly hm
  rw [ack]
  exact ⟨rfl, rfl⟩

/-- A message changes no limit before its first await. -/
theorem message_quiet (s : HubProcess) (ws : SocketId) (msg : WorkerToCoordMsg) (n : Nat)
    (tasks : List Task) : Quiet s { s with
      received := s.received ++ [(ws, msg)]
      handlers := s.handlers ++ tasks.map fun task =>
        .onMessage n (s.hub.stateByWs ws) false task } := by
  refine .around rfl ?_ ?_ rfl ⟨[], by simp⟩ ⟨_, rfl⟩
  · rw [List.filter_append, List.append_right_eq_self, List.filter_eq_nil_iff]
    intro handler hh
    obtain ⟨_, _, rfl⟩ := List.mem_map.mp hh
    exact Bool.false_ne_true
  · intro handler hh r hr
    rcases List.mem_append.mp hh with hh | hh
    · exact .inl ⟨handler, hh, hr⟩
    · obtain ⟨_, _, rfl⟩ := List.mem_map.mp hh
      obtain ⟨_, hs, _⟩ := Hub.stateByWs_state hr
      exact .inr (List.getElem?_eq_some_iff.mp hs).1

/-- A dispatch counts, and changes no limit. -/
theorem sendJob_quiet (s : HubProcess) (workerId : WorkerId) (msg : JobDispatch) : Quiet s { s with
    hub := (s.hub.sendJob s.isOpen workerId msg).2.1
    sent := s.sent ++ (s.hub.sendJob s.isOpen workerId msg).2.2 } := by
  unfold Hub.sendJob
  cases ho : s.hub.openState s.isOpen workerId with
  | none => exact .within rfl (fun _ => .inl rfl) rfl rfl (List.append_nil _) rfl
  | some p =>
    obtain ⟨r, state⟩ := p
    obtain ⟨_, hs, _⟩ := Hub.openState_eq_some.mp ho
    have counted := Quiet.modified (f := fun state => { state with inFlight := state.inFlight + 1 })
      s r (fun _ => rfl) fun _ => rfl
    refine ⟨counted.registrations, counted.entries, counted.handlers, counted.states, rfl,
      ⟨[(state.ws, .jobDispatch msg)], rfl, ?_, ?_⟩, counted.received⟩
    · intro m hm
      cases List.mem_singleton.mp hm
      rfl
    · intro m hm _
      cases List.mem_singleton.mp hm
      exact List.mem_map_of_mem (List.mem_of_getElem? hs)

/-- Only hellos and calls of `setConcurrency` touch a limit. -/
theorem step_control {s s' : HubProcess} {a : HubAction} (hstep : step s a = some s') :
    ControlStep s a s' := by
  cases step_moves hstep with
  | connected | others => exact .quiet (.within rfl (fun _ => .inl rfl) rfl rfl rfl rfl)
  | closing | unnamed => exact .quiet (.shut s _)
  | greeted => exact .hello
  | heard => exact .quiet (message_quiet s _ _ _ _)
  | left => exact .quiet ((Quiet.shut s _).trans (.left _ _ _))
  | pinged => exact .quiet (pingAll_quiet s)
  | called found => exact .called found
  | refused => exact .quiet (.refl s)
  | sent => exact .quiet (sendJob_quiet s _ _)
  | upserted hi => exact .upserted hi
  | updated hi => exact .updated hi
  | lost hi ended => exact .lost hi ended
  | registered hi => exact .registered hi
  | returned hi => exact .returned hi
  | resumed hi => exact .quiet (finish_quiet hi fun m hm => resume_undispatched hm)
  | failed hi =>
    refine .quiet (finish_quiet hi ?_)
    rw [fail_sent]
    exact fun m hm => by cases hm

end HubProcess

end Dispatcher
