import Dispatcher.Model.Hub

namespace Dispatcher
open Tables

namespace Hub

variable {hub : Hub} {isOpen : SocketId → Bool} {workerId : WorkerId} {ws : SocketId} {r : StateRef}
  {state : WorkerState}

def socketOf (hub : Hub) (workerId : WorkerId) : Option SocketId :=
  ((hub.get workerId).bind (hub.states[·]?)).map WorkerState.ws

theorem get_of_mem {p : WorkerId × StateRef} (h : p ∈ hub.workers.rows) :
    hub.get p.1 = some p.2 := by
  simp [get, Table.lookup_of_mem h]

theorem get_mem (h : hub.get workerId = some r) : (workerId, r) ∈ hub.workers.rows := by
  obtain ⟨p, hp, rfl⟩ := Option.map_eq_some_iff.mp h
  obtain ⟨hm, rfl⟩ := Table.lookup_eq_some.mp hp
  exact hm

/-- A worker that is in the map has a `WorkerState` of its own. -/
theorem get_state (h : hub.get workerId = some r) :
    ∃ state, hub.states[r]? = some state ∧ state.workerId = workerId :=
  Option.map_eq_some_iff.mp (hub.named _ (get_mem h))

theorem get_inj {workerId' : WorkerId} (h : hub.get workerId = some r)
    (h' : hub.get workerId' = some r) : workerId = workerId' := by
  obtain ⟨state, hs, rfl⟩ := get_state h
  obtain ⟨state', hs', rfl⟩ := get_state h'
  rw [Option.some.inj (hs.symm.trans hs')]

theorem openState_eq_some : hub.openState isOpen workerId = some (r, state) ↔
    hub.get workerId = some r ∧ hub.states[r]? = some state ∧ isOpen state.ws = true := by
  simp only [openState, Option.bind_eq_some_iff, Option.ite_none_right_eq_some, Option.some.injEq,
    Prod.mk.injEq]
  constructor
  · rintro ⟨r', hr, state', hs, open', rfl, rfl⟩
    exact ⟨hr, hs, open'⟩
  · rintro ⟨hr, hs, open'⟩
    exact ⟨r, hr, state, hs, open', rfl, rfl⟩

theorem stateByWs_state (h : hub.stateByWs ws = some r) :
    ∃ state, hub.states[r]? = some state ∧ state.ws = ws := by
  obtain ⟨p, hp, rfl⟩ := Option.map_eq_some_iff.mp h
  have found := List.find?_some hp
  obtain ⟨state, hs, named⟩ := (Option.any_eq_true _ _).mp found
  exact ⟨state, hs, of_decide_eq_true named⟩

theorem stateByWs_mem (h : hub.stateByWs ws = some r) : ∃ p ∈ hub.workers.rows, p.2 = r := by
  obtain ⟨p, hp, rfl⟩ := Option.map_eq_some_iff.mp h
  exact ⟨p, List.mem_of_find?_eq_some hp, rfl⟩

theorem stateByWs_isSome {p : WorkerId × StateRef} (h : p ∈ hub.workers.rows)
    (hs : hub.states[p.2]? = some state) (hw : state.ws = ws) : (hub.stateByWs ws).isSome := by
  rw [stateByWs, Option.isSome_map, List.find?_isSome]
  exact ⟨p, h, by simp [hs, hw]⟩

theorem states_modify (hub : Hub) (r r' : StateRef) {f : WorkerState → WorkerState}
    (hf : ∀ state, (f state).workerId = state.workerId) :
    (hub.modify r f hf).states[r']? =
      if r = r' then (hub.states[r']?).map f else hub.states[r']? := by
  simp only [modify, List.getElem?_modify]
  split
  · rfl
  · cases hub.states[r']? <;> rfl

/-- What no assignment of the hub changes. -/
theorem map_modify (hub : Hub) (r r' : StateRef) {f : WorkerState → WorkerState}
    (hf : ∀ state, (f state).workerId = state.workerId) {g : WorkerState → β}
    (hg : ∀ state, g (f state) = g state) :
    ((hub.modify r f hf).states[r']?).map g = (hub.states[r']?).map g := by
  rw [states_modify]
  split
  · cases hub.states[r']? <;> simp [hg]
  · rfl

theorem sockets_modify (hub : Hub) (r : StateRef) {f : WorkerState → WorkerState}
    (hf : ∀ state, (f state).workerId = state.workerId)
    (hw : ∀ state, (f state).ws = state.ws) :
    (hub.modify r f hf).states.map WorkerState.ws = hub.states.map WorkerState.ws := by
  apply List.ext_getElem?
  intro r'
  rw [List.getElem?_map, List.getElem?_map, map_modify hub r r' hf hw]

theorem get_modify (hub : Hub) (r : StateRef) {f : WorkerState → WorkerState}
    (hf : ∀ state, (f state).workerId = state.workerId) (workerId : WorkerId) :
    (hub.modify r f hf).get workerId = hub.get workerId := rfl

theorem states_deregister (hub : Hub) (workerId : WorkerId) (ws : SocketId) :
    (hub.deregister workerId ws).states = hub.states := by
  unfold deregister
  split
  · rfl
  · split <;> rfl

theorem get_deregister (hub : Hub) (workerId : WorkerId) (ws : SocketId) (workerId' : WorkerId) :
    (hub.deregister workerId ws).get workerId' = hub.get workerId' ∨
      (hub.deregister workerId ws).get workerId' = none := by
  unfold deregister
  split
  · exact .inl rfl
  · split
    · simp only [get, remove, Table.lookup_delete]
      cases hub.workers.lookup workerId' with
      | none => exact .inl rfl
      | some p =>
        by_cases named : p.1 = workerId
        · exact .inr (by simp [named])
        · exact .inl (by simp [Option.filter, named])
    · exact .inl rfl

theorem states_set (hub : Hub) (state : WorkerState) (h : r < hub.states.length) :
    (hub.set state).states[r]? = hub.states[r]? :=
  List.getElem?_append_left h

theorem get_set (hub : Hub) (state : WorkerState) :
    (hub.set state).get state.workerId = some hub.states.length := by
  unfold set
  split
  next taken =>
    obtain ⟨r, hr⟩ := Option.isSome_iff_exists.mp taken
    obtain ⟨p, hp, rfl⟩ := Option.map_eq_some_iff.mp hr
    have named : p.1 = state.workerId := Table.lookup_key hp
    simp [get, Table.lookup_update, hp, named]
  next absent =>
    have fresh : hub.workers.lookup state.workerId = none := by simpa [get] using absent
    simp [get, Table.lookup_insert, fresh]

theorem get_set_of_ne (hub : Hub) (state : WorkerState) (other : workerId ≠ state.workerId) :
    (hub.set state).get workerId = hub.get workerId := by
  unfold set
  split
  next =>
    simp only [get, Table.lookup_update, Option.map_map]
    cases hp : hub.workers.lookup workerId with
    | none => rfl
    | some p =>
      have named : p.1 ≠ state.workerId := Table.lookup_key hp ▸ other
      simp [named]
  next => simp [get, Table.lookup_insert, other.symm]

end Hub

section

variable {l : List α} {i : Nat} {x : α}

/-- A list around its `i`-th item. -/
theorem split_at (hi : l[i]? = some x) :
    l = l.take i ++ x :: l.drop (i + 1) ∧ l.eraseIdx i = l.take i ++ l.drop (i + 1) ∧
      ∀ y, l.set i y = l.take i ++ y :: l.drop (i + 1) := by
  obtain ⟨hlt, rfl⟩ := List.getElem?_eq_some_iff.mp hi
  refine ⟨?_, List.eraseIdx_eq_take_drop_succ _ _, ?_⟩
  · rw [← List.drop_eq_getElem_cons hlt, List.take_append_drop]
  · exact fun y => List.set_eq_take_append_cons_drop.trans (if_pos hlt)

variable (f : α → Option β)

theorem filterMap_at (hi : l[i]? = some x) : l.filterMap f =
    (l.take i).filterMap f ++ ((f x).toList ++ (l.drop (i + 1)).filterMap f) := by
  conv_lhs => rw [(split_at hi).1]
  cases hf : f x <;> simp [hf]

theorem filterMap_eraseIdx (hi : l[i]? = some x) : (l.eraseIdx i).filterMap f =
    (l.take i).filterMap f ++ (l.drop (i + 1)).filterMap f := by
  rw [(split_at hi).2.1, List.filterMap_append]

theorem filterMap_set (hi : l[i]? = some x) (y : α) : (l.set i y).filterMap f =
    (l.take i).filterMap f ++ ((f y).toList ++ (l.drop (i + 1)).filterMap f) := by
  rw [(split_at hi).2.2 y]
  cases hf : f y <;> simp [hf]

theorem filterMap_set_same (hi : l[i]? = some x) {y : α} (same : f y = f x) :
    (l.set i y).filterMap f = l.filterMap f := by
  rw [filterMap_set f hi, filterMap_at f hi, same]

theorem filterMap_eraseIdx_none (hi : l[i]? = some x) (none : f x = none) :
    (l.eraseIdx i).filterMap f = l.filterMap f := by
  rw [filterMap_eraseIdx f hi, filterMap_at f hi, none]
  rfl

end

def Handler.answered : Handler → Option Handler
  | .onHello ws workerId limit false => some (.onHello ws workerId limit true)
  | .setConcurrency workerId limit false => some (.setConcurrency workerId limit true)
  | .onHello _ _ _ true | .setConcurrency _ _ true | .onMessage .. => none

theorem Handler.answered_cases {old new : Handler} (ended : old.answered = some new) :
    (∃ ws workerId limit, old = .onHello ws workerId limit false ∧
      new = .onHello ws workerId limit true) ∨
    ∃ workerId limit, old = .setConcurrency workerId limit false ∧
      new = .setConcurrency workerId limit true := by
  cases old with
  | onHello ws workerId limit returned =>
    cases returned with
    | true => cases ended
    | false => exact .inl ⟨ws, workerId, limit, rfl, (Option.some.inj ended).symm⟩
  | setConcurrency workerId limit returned =>
    cases returned with
    | true => cases ended
    | false => exact .inr ⟨workerId, limit, rfl, (Option.some.inj ended).symm⟩
  | onMessage => cases ended

def WorkerToCoordMsg.greeting : WorkerToCoordMsg → Option (WorkerId × Int)
  | .workerHello workerId limit => some (workerId, limit)
  | .jobResult _ | .jobFailed _ | .jobHeartbeat _ | .pong => none

/-- The handler of a message sends nothing but acks. -/
theorem resume_acksOnly {t : Task} {ctx : Ctx} {db : Db} {m : SocketId × CoordToWorkerMsg}
    (hm : m ∈ (t.resume ctx (fun _ => none) db).sent) : ∃ jobId, m.2 = .jobAck jobId := by
  cases t with
  | resultTx | resultReAck | resultLookup | dispatchTx | dispatchSend | submitLookup | submitTx
  | cancelLookup =>
    simp only [Task.resume, sendMsg] at hm
    repeat' split at hm
    all_goals first
      | cases hm; done
      | cases List.mem_singleton.mp hm; exact ⟨_, rfl⟩
  | helloUpsert | failedTx | heartbeatUpdate | reaperTx | submitWinner | cancelTx => cases hm

theorem fail_sent (t : Task) (db : Db) (error : String) : (t.fail db error).sent = [] := by
  cases t <;> rfl

namespace HubProcess

/-- What `onHello` does after its await. -/
theorem register_fields (s : HubProcess) (ws : SocketId) (workerId : WorkerId) (limit : Int) :
    (s.register ws workerId limit).hub =
        s.hub.set { ws, workerId, concurrencyLimit := limit, inFlight := 0 } ∧
      (s.register ws workerId limit).workerReg = s.workerReg ∧
      (s.register ws workerId limit).handlers = s.handlers ∧
      (s.register ws workerId limit).sent = s.sent ∧
      (s.register ws workerId limit).received = s.received := by
  unfold register
  split <;> exact ⟨rfl, rfl, rfl, rfl, rfl⟩

/-- A ping changes neither handlers nor tables, and no `WorkerState`. -/
theorem pingAll_invariant {P : HubProcess → Prop} (s : HubProcess) (h : P s)
    (ping : ∀ s ws, P s → P { s with sent := s.sent ++ [(ws, .ping)] })
    (gone : ∀ s workerId ws, P s → P { s with hub := s.hub.deregister workerId ws }) :
    P s.pingAll := by
  unfold pingAll
  generalize s.entries = entries
  induction entries generalizing s with
  | nil => exact h
  | cons p rest ih =>
    rw [List.foldl_cons]
    apply ih
    dsimp only
    split
    · exact ping s _ h
    · exact gone s _ _ h

inductive Moves (s : HubProcess) : HubAction → HubProcess → Prop where
  | connected {ws : SocketId} : Moves s (.connection ws) { s with opened := s.opened ++ [ws] }
  | greeted {ws : SocketId} {workerId : WorkerId} {limit : Int} {ctx : Ctx} :
      Moves s (.message ws (.workerHello workerId limit) ctx) { s with
        received := s.received ++ [(ws, .workerHello workerId limit)]
        ids := s.ids ++ [(ws, workerId)]
        handlers := s.handlers ++ [.onHello ws workerId limit false] }
  | heard {ws : SocketId} {msg : WorkerToCoordMsg} {ctx : Ctx} {n : Nat}
      (other : msg.greeting = none) (last : n = s.received.length) :
      Moves s (.message ws msg ctx) { s with
        received := s.received ++ [(ws, msg)]
        handlers := s.handlers ++ (onMessage ctx
          (((s.hub.stateByWs ws).bind (s.hub.states[·]?)).map WorkerState.workerId) ws msg).map
            fun task => .onMessage n (s.hub.stateByWs ws) false task }
  | closing {ws : SocketId} : Moves s (.closing ws) (s.close ws)
  | left {ws : SocketId} {workerId : WorkerId} (named : s.idOf ws = some workerId) :
      Moves s (.closed ws) { s.close ws with hub := s.hub.deregister workerId ws }
  | unnamed {ws : SocketId} (named : s.idOf ws = none) : Moves s (.closed ws) (s.close ws)
  | pinged : Moves s .pingAll s.pingAll
  | called {workerId : WorkerId} {r : StateRef} {state : WorkerState} {limit : Int}
      (found : s.hub.openState s.isOpen workerId = some (r, state)) :
      Moves s (.setConcurrency workerId limit) { s with
        hub := s.hub.modify r (fun state => { state with concurrencyLimit := limit }) fun _ => rfl
        sent := s.sent ++ [(state.ws, .setConcurrency limit)]
        handlers := s.handlers ++ [.setConcurrency workerId limit false] }
  | refused {workerId : WorkerId} {limit : Int} : Moves s (.setConcurrency workerId limit) s
  | sent {workerId : WorkerId} {msg : JobDispatch} : Moves s (.sendJob workerId msg) { s with
      hub := (s.hub.sendJob s.isOpen workerId msg).2.1
      sent := s.sent ++ (s.hub.sendJob s.isOpen workerId msg).2.2 }
  | upserted {i : Nat} {ws : SocketId} {workerId : WorkerId} {limit : Int}
      (hi : s.handlers[i]? = some (.onHello ws workerId limit false)) :
      Moves s (.write i) { s.upsert workerId limit with
        handlers := s.handlers.set i (.onHello ws workerId limit true) }
  | updated {i : Nat} {workerId : WorkerId} {limit : Int}
      (hi : s.handlers[i]? = some (.setConcurrency workerId limit false)) :
      Moves s (.write i) { s.update workerId limit with
        handlers := s.handlers.set i (.setConcurrency workerId limit true) }
  | lost {i : Nat} {handler handler' : Handler} (hi : s.handlers[i]? = some handler)
      (ended : handler.answered = some handler') :
      Moves s (.writeFails i) { s with handlers := s.handlers.set i handler' }
  | registered {i : Nat} {ws : SocketId} {workerId : WorkerId} {limit : Int} {ctx : Ctx}
      (hi : s.handlers[i]? = some (.onHello ws workerId limit true)) :
      Moves s (.resume i ctx)
        ({ s with handlers := s.handlers.eraseIdx i }.register ws workerId limit)
  | returned {i : Nat} {workerId : WorkerId} {limit : Int} {ctx : Ctx}
      (hi : s.handlers[i]? = some (.setConcurrency workerId limit true)) :
      Moves s (.resume i ctx) { s with handlers := s.handlers.eraseIdx i }
  | resumed {i n : Nat} {state : Option StateRef} {settled : Bool} {task : Task} {ctx : Ctx}
      (hi : s.handlers[i]? = some (.onMessage n state settled task)) :
      Moves s (.resume i ctx) (s.finish i n state settled (task.settles settled)
        (task.resume { ctx with wsOpen := task.socket.any s.isOpen } (fun _ => none) s.db))
  | failed {i n : Nat} {state : Option StateRef} {settled : Bool} {task : Task} {error : String}
      (hi : s.handlers[i]? = some (.onMessage n state settled task)) :
      Moves s (.fail i error)
        (s.finish i n state settled (task.settlesFailed settled) (task.fail s.db error))
  | others {db : Db} : Moves s (.others db) { s with db }

theorem step_moves {s s' : HubProcess} {a : HubAction} (hstep : step s a = some s') :
    Moves s a s' := by
  cases a with
  | connection ws =>
    cases hstep
    exact .connected
  | closing ws =>
    cases hstep
    exact .closing
  | others db =>
    cases hstep
    exact .others
  | pingAll =>
    cases hstep
    exact .pinged
  | sendJob workerId msg =>
    cases hstep
    exact .sent
  | message ws msg ctx =>
    cases msg with
    | workerHello workerId limit =>
      cases hstep
      exact .greeted
    | jobResult | jobFailed | jobHeartbeat | pong =>
      cases hstep
      exact .heard rfl (by simp)
  | closed ws =>
    simp only [step] at hstep
    split at hstep
    next workerId named =>
      cases hstep
      exact .left named
    next named =>
      cases hstep
      exact .unnamed named
  | setConcurrency workerId limit =>
    simp only [step] at hstep
    split at hstep
    next hub sent hset =>
      cases hstep
      obtain ⟨⟨r, state⟩, found, heq⟩ := Option.map_eq_some_iff.mp hset
      cases heq
      exact .called found
    next =>
      cases hstep
      exact .refused
  | write i =>
    simp only [step] at hstep
    split at hstep
    next hi =>
      cases hstep
      exact .upserted hi
    next hi =>
      cases hstep
      exact .updated hi
    next => cases hstep
  | writeFails i =>
    simp only [step] at hstep
    split at hstep
    next hi =>
      cases hstep
      exact .lost hi rfl
    next hi =>
      cases hstep
      exact .lost hi rfl
    next => cases hstep
  | resume i ctx =>
    simp only [step] at hstep
    split at hstep
    next hi =>
      cases hstep
      exact .registered hi
    next hi =>
      cases hstep
      exact .returned hi
    next hi =>
      cases hstep
      exact .resumed hi
    next => cases hstep
  | fail i error =>
    simp only [step] at hstep
    split at hstep
    next hi =>
      cases hstep
      exact .failed hi
    next => cases hstep

end HubProcess

end Dispatcher
