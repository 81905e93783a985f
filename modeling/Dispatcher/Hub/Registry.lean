import Dispatcher.Hub.Entries

namespace Dispatcher
open Tables

namespace Hub

variable {hub : Hub} {workerId : WorkerId}

theorem socketOf_modify (hub : Hub) (r : StateRef) {f : WorkerState → WorkerState}
    (hf : ∀ state, (f state).workerId = state.workerId) (hw : ∀ state, (f state).ws = state.ws)
    (workerId : WorkerId) : (hub.modify r f hf).socketOf workerId = hub.socketOf workerId := by
  rw [socketOf, socketOf, get_modify]
  cases hub.get workerId with
  | none => rfl
  | some r' => exact map_modify hub r r' hf hw

theorem get_remove (hub : Hub) (workerId workerId' : WorkerId) :
    (hub.remove workerId).get workerId' = if workerId' = workerId then none else hub.get workerId' := by
  simp only [get, remove, Table.lookup_delete]
  cases hp : hub.workers.lookup workerId' with
  | none => simp
  | some p =>
    have named : p.1 = workerId' := Table.lookup_key hp
    by_cases same : workerId' = workerId
    · simp [named, same]
    · simp [Option.filter_some, named, same]

theorem socketOf_deregister (hub : Hub) (workerId : WorkerId) (ws : SocketId)
    (workerId' : WorkerId) : (hub.deregister workerId ws).socketOf workerId' =
      if workerId' = workerId ∧ hub.socketOf workerId = some ws then none
      else hub.socketOf workerId' := by
  unfold deregister
  cases found : (hub.get workerId).bind (hub.states[·]?) with
  | none => simp [socketOf, found]
  | some state =>
    have socket : hub.socketOf workerId = some state.ws := by simp [socketOf, found]
    by_cases own : state.ws = ws
    · simp only [own, ↓reduceIte, socket, and_true]
      rw [socketOf, get_remove]
      split <;> rfl
    · simp [own, socket]

theorem socketOf_set (hub : Hub) (state : WorkerState) (workerId : WorkerId) :
    (hub.set state).socketOf workerId =
      if workerId = state.workerId then some state.ws else hub.socketOf workerId := by
  by_cases same : workerId = state.workerId
  · subst same
    have new : (hub.set state).states[hub.states.length]? = some state := by simp [set]
    simp [socketOf, get_set, new]
  · rw [if_neg same, socketOf, socketOf, get_set_of_ne hub state same]
    cases hr : hub.get workerId with
    | none => rfl
    | some r =>
      obtain ⟨old, hs, _⟩ := get_state hr
      simp only [Option.bind_some]
      rw [states_set hub state (List.getElem?_eq_some_iff.mp hs).1]

end Hub

def Handler.hello : Handler → Option (SocketId × WorkerId)
  | .onHello ws workerId _ _ => some (ws, workerId)
  | .setConcurrency .. | .onMessage .. => none

/-- The registered sockets, the suspended hellos, and all hellos in the order in which
they were received. -/
structure RegistryView where
  entry : WorkerId → Option SocketId
  suspended : List (SocketId × WorkerId)
  hellos : List (SocketId × WorkerId)

/-- What a step does to the registry: `opened` are the OPEN sockets after it, and
`registers` is the hello that goes on after its await. -/
inductive RegistryStep (opened : List SocketId) (registers : Option (SocketId × WorkerId))
    (v : RegistryView) : HubAction → RegistryView → Prop where
  | quiet {a : HubAction} (none : registers = none) (other : ∀ ws, a ≠ .closed ws) :
      RegistryStep opened registers v a v
  | hello {ws : SocketId} {workerId : WorkerId} {limit : Int} {ctx : Ctx} (none : registers = none) :
      RegistryStep opened registers v (.message ws (.workerHello workerId limit) ctx)
        { v with
          suspended := v.suspended ++ [(ws, workerId)]
          hellos := v.hellos ++ [(ws, workerId)] }
  | closed {ws : SocketId} {entry : WorkerId → Option SocketId} (none : registers = none)
      (shut : ws ∉ opened)
      (gone : ∀ workerId, entry workerId =
        if v.entry workerId = some ws ∧
          (v.hellos.reverse.find? fun p => p.1 = ws).map Prod.snd = some workerId then Option.none
        else v.entry workerId) : RegistryStep opened registers v (.closed ws) { v with entry }
  | pinged {entry : WorkerId → Option SocketId} (none : registers = none)
      (kept : ∀ workerId, entry workerId = v.entry workerId ∨
        ∃ ws, v.entry workerId = some ws ∧ entry workerId = Option.none ∧ ws ∉ opened) :
      RegistryStep opened registers v .pingAll { v with entry }
  | registered {a : HubAction} {ws : SocketId} {workerId : WorkerId}
      {before after : List (SocketId × WorkerId)} (goes : registers = some (ws, workerId))
      (other : ∀ ws, a ≠ .closed ws)
      (suspended : v.suspended = before ++ (ws, workerId) :: after) :
      RegistryStep opened registers v a { v with
        entry := fun w => if w = workerId then some ws else v.entry w
        suspended := before ++ after }

namespace HubProcess

def registryView (s : HubProcess) : RegistryView where
  entry := s.hub.socketOf
  suspended := s.handlers.filterMap Handler.hello
  hellos := s.ids

/-- The hello whose handler an action takes past its await. -/
def registers (s : HubProcess) : HubAction → Option (SocketId × WorkerId)
  | .resume i _ =>
    match s.handlers[i]? with
    | some (.onHello ws workerId _ true) => some (ws, workerId)
    | _ => none
  | _ => none

theorem deregisters_socketOf (entries : List (WorkerId × WorkerState)) (s : HubProcess)
    (workerId : WorkerId) :
    let s' := entries.foldl (fun s (workerId, state) =>
      if s.isOpen state.ws then { s with sent := s.sent ++ [(state.ws, .ping)] }
      else { s with hub := s.hub.deregister workerId state.ws }) s
    s'.opened = s.opened ∧ s'.handlers = s.handlers ∧ s'.ids = s.ids ∧
      (s'.hub.socketOf workerId = s.hub.socketOf workerId ∨
        ∃ ws, s.hub.socketOf workerId = some ws ∧ s'.hub.socketOf workerId = none ∧ ws ∉ s.opened) := by
  induction entries generalizing s with
  | nil => exact ⟨rfl, rfl, rfl, .inl rfl⟩
  | cons p rest ih =>
    obtain ⟨w, state⟩ := p
    rw [List.foldl_cons]
    dsimp only
    split
    · exact ih { s with sent := s.sent ++ [(state.ws, .ping)] }
    next shut =>
      obtain ⟨opened, handlers, ids, entry⟩ :=
        ih { s with hub := s.hub.deregister w state.ws }
      refine ⟨opened, handlers, ids, ?_⟩
      have left := Hub.socketOf_deregister s.hub w state.ws workerId
      by_cases own : workerId = w ∧ s.hub.socketOf w = some state.ws
      · obtain ⟨rfl, socket⟩ := own
        rw [if_pos ⟨rfl, socket⟩] at left
        rcases entry with same | ⟨ws, before, _⟩
        · refine .inr ⟨state.ws, socket, same.trans left, ?_⟩
          simpa [isOpen] using shut
        · cases left.symm.trans before
      · rw [if_neg own] at left
        rw [← left]
        exact entry

theorem pingAll_registry (s : HubProcess) :
    RegistryStep s.pingAll.opened none s.registryView .pingAll s.pingAll.registryView := by
  have parts : s.pingAll.opened = s.opened ∧ s.pingAll.handlers = s.handlers ∧
      s.pingAll.ids = s.ids := by
    obtain ⟨opened, handlers, ids, _⟩ := deregisters_socketOf s.entries s ""
    exact ⟨opened, handlers, ids⟩
  have view : s.pingAll.registryView =
      { s.registryView with entry := s.pingAll.hub.socketOf } := by
    simp only [registryView, parts]
  rw [view]
  refine .pinged rfl fun workerId => ?_
  rw [parts.1]
  exact (deregisters_socketOf s.entries s workerId).2.2.2

/-- A handler of another message leaves the registry alone. -/
theorem finish_registry {s : HubProcess} {i n : Nat} {state : Option StateRef}
    {settled settles : Bool} {task : Task} {o : Outcome}
    (hi : s.handlers[i]? = some (.onMessage n state settled task)) :
    (s.finish i n state settled settles o).registryView = s.registryView := by
  have handlers : (s.finish i n state settled settles o).handlers.filterMap Handler.hello =
      s.handlers.filterMap Handler.hello := by
    have next : (o.next.map fun task => Handler.onMessage n state (settled || settles) task).filterMap
        Handler.hello = [] := by
      rw [List.filterMap_eq_nil_iff]
      intro handler hh
      obtain ⟨_, _, rfl⟩ := List.mem_map.mp hh
      rfl
    simp only [finish]
    rw [List.filterMap_append, next, List.append_nil, filterMap_eraseIdx_none Handler.hello hi rfl]
  have entry : (s.finish i n state settled settles o).hub.socketOf = s.hub.socketOf := by
    funext workerId
    cases state with
    | none => rfl
    | some r =>
      cases settles with
      | false => rfl
      | true =>
        exact Hub.socketOf_modify (f := fun state => { state with inFlight := state.inFlight - 1 })
          s.hub r (fun _ => rfl) (fun _ => rfl) workerId
  simp only [registryView, handlers, entry]
  rfl

theorem registryView_set {s s' : HubProcess} {i : Nat} {old new : Handler}
    (hub : s'.hub = s.hub) (ids : s'.ids = s.ids) (handlers : s'.handlers = s.handlers.set i new)
    (hi : s.handlers[i]? = some old) (same : new.hello = old.hello) :
    s'.registryView = s.registryView := by
  simp only [registryView, hub, ids, handlers, filterMap_set_same Handler.hello hi same]

theorem registryView_hub {s s' : HubProcess} (handlers : s'.handlers.filterMap Handler.hello =
      s.handlers.filterMap Handler.hello) (ids : s'.ids = s.ids)
    (entry : ∀ workerId, s'.hub.socketOf workerId = s.hub.socketOf workerId) :
    s'.registryView = s.registryView := by
  simp only [registryView, handlers, ids, funext entry]

theorem unnamed_registry {s : HubProcess} {ws : SocketId} (named : s.idOf ws = none) :
    RegistryStep (s.close ws).opened none s.registryView (.closed ws) (s.close ws).registryView := by
  have shut : ws ∉ (s.close ws).opened := by simp [close]
  have none : (s.registryView.hellos.reverse.find? fun p => p.1 = ws).map Prod.snd = none := named
  have kept (workerId : WorkerId) : s.registryView.entry workerId =
      if s.registryView.entry workerId = some ws ∧
        (s.registryView.hellos.reverse.find? fun p => p.1 = ws).map Prod.snd = some workerId
      then Option.none else s.registryView.entry workerId := by
    rw [none, if_neg (fun h => by cases h.2)]
  exact .closed rfl shut kept

theorem left_registry {s : HubProcess} {ws : SocketId} {w : WorkerId} (named : s.idOf ws = some w) :
    RegistryStep (s.close ws).opened none s.registryView (.closed ws)
      { s.close ws with hub := s.hub.deregister w ws }.registryView := by
  have shut : ws ∉ (s.close ws).opened := by simp [close]
  have last : (s.registryView.hellos.reverse.find? fun p => p.1 = ws).map Prod.snd = some w := named
  have gone (workerId : WorkerId) : (s.hub.deregister w ws).socketOf workerId =
      if s.registryView.entry workerId = some ws ∧
        (s.registryView.hellos.reverse.find? fun p => p.1 = ws).map Prod.snd = some workerId
      then none else s.registryView.entry workerId := by
    rw [last, Hub.socketOf_deregister]
    by_cases same : workerId = w
    · subst same
      simp [registryView]
    · simp [same, Ne.symm same, registryView]
  exact .closed rfl shut gone

theorem register_registry {s : HubProcess} {i : Nat} {ws : SocketId} {workerId : WorkerId}
    {limit : Int} (hi : s.handlers[i]? = some (.onHello ws workerId limit true)) (ctx : Ctx)
    (opened : List SocketId) :
    RegistryStep opened (s.registers (.resume i ctx)) s.registryView (.resume i ctx)
      ({ s with handlers := s.handlers.eraseIdx i }.register ws workerId limit).registryView := by
  obtain ⟨hub, _, handlers, _⟩ :=
    register_fields { s with handlers := s.handlers.eraseIdx i } ws workerId limit
  have ids : ({ s with handlers := s.handlers.eraseIdx i }.register ws workerId limit).ids = s.ids := by
    unfold register
    split <;> rfl
  have suspended := filterMap_at Handler.hello hi
  simp only [Handler.hello, Option.toList_some, List.singleton_append] at suspended
  have view : ({ s with handlers := s.handlers.eraseIdx i }.register ws workerId limit).registryView =
      { s.registryView with
        entry := fun w => if w = workerId then some ws else s.registryView.entry w
        suspended := (s.handlers.take i).filterMap Handler.hello ++
          (s.handlers.drop (i + 1)).filterMap Handler.hello } := by
    simp only [registryView, hub, handlers, ids, filterMap_eraseIdx Handler.hello hi]
    congr 1
    funext w
    exact Hub.socketOf_set s.hub _ w
  rw [view]
  exact .registered (by simp [registers, hi]) (fun _ => HubAction.noConfusion) suspended

/-- Every step of the hub does one of these things to the registry. -/
theorem step_registry {s s' : HubProcess} {a : HubAction} (hstep : step s a = some s') :
    RegistryStep s'.opened (s.registers a) s.registryView a s'.registryView := by
  have quiet : s.registers a = none → (∀ ws, a ≠ .closed ws) →
      s'.registryView = s.registryView →
      RegistryStep s'.opened (s.registers a) s.registryView a s'.registryView := by
    intro none other same
    rw [same]
    exact .quiet none other
  cases step_moves hstep with
  | connected | closing | others | refused => exact quiet rfl (fun _ => HubAction.noConfusion) rfl
  | greeted =>
    simp only [registryView, List.filterMap_append]
    exact .hello rfl
  | heard =>
    refine quiet rfl (fun _ => HubAction.noConfusion) (registryView_hub ?_ rfl fun _ => rfl)
    rw [List.filterMap_append, List.append_right_eq_self, List.filterMap_eq_nil_iff]
    intro handler hh
    obtain ⟨_, _, rfl⟩ := List.mem_map.mp hh
    rfl
  | left named => exact left_registry named
  | unnamed named => exact unnamed_registry named
  | pinged => exact pingAll_registry s
  | called =>
    refine quiet rfl (fun _ => HubAction.noConfusion) ?_
    refine registryView_hub (by simp [Handler.hello]) rfl fun w => ?_
    rw [Hub.socketOf_modify]
    exact fun _ => rfl
  | sent =>
    refine quiet rfl (fun _ => HubAction.noConfusion) ?_
    refine registryView_hub rfl rfl fun w => ?_
    unfold Hub.sendJob
    split
    · rfl
    · rw [Hub.socketOf_modify]
      exact fun _ => rfl
  | upserted hi | updated hi =>
    exact quiet rfl (fun _ => HubAction.noConfusion) (registryView_set rfl rfl rfl hi rfl)
  | lost hi ended =>
    refine quiet rfl (fun _ => HubAction.noConfusion) (registryView_set rfl rfl rfl hi ?_)
    rcases Handler.answered_cases ended with ⟨ws, workerId, limit, rfl, rfl⟩ | ⟨workerId, limit, rfl, rfl⟩
      <;> rfl
  | registered hi => exact register_registry hi _ _
  | returned hi =>
    refine quiet (by simp [registers, hi]) (fun _ => HubAction.noConfusion) ?_
    refine registryView_hub ?_ rfl fun _ => rfl
    rw [filterMap_eraseIdx_none Handler.hello hi rfl]
  | resumed hi =>
    exact quiet (by simp [registers, hi]) (fun _ => HubAction.noConfusion) (finish_registry hi)
  | failed hi => exact quiet rfl (fun _ => HubAction.noConfusion) (finish_registry hi)

end HubProcess

end Dispatcher
