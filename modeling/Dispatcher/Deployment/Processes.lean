import Dispatcher.Cluster.Coordinators
import Dispatcher.Hub.Rosters
import Dispatcher.Model.Deployment

namespace Dispatcher
open Runs

/-- The await of a suspended handler that the cluster knows of. -/
def Handler.await : Handler → Option Task
  | .onHello ws workerId _ _ => some (.helloUpsert ws workerId)
  | .setConcurrency .. => none
  | .onMessage _ _ _ task => some task

def TickPoint.await : TickPoint → Option Task
  | .transaction workerId => some (.dispatchTx workerId)
  | .committed workerId (some job) => some (.dispatchSend workerId job)
  | .committed _ none | .returned _ | .ended => none

/-- A message about a job, as against the pings and the limits. -/
def CoordToWorkerMsg.aboutJob : CoordToWorkerMsg → Bool
  | .jobDispatch _ | .jobAck _ => true
  | .setConcurrency _ | .ping => false

/-- What was written in between, and what of it is about jobs. -/
def Wrote (before after : List (SocketId × CoordToWorkerMsg))
    (sent sent' : List (SocketId × CoordToWorkerMsg)) : Prop :=
  ∃ more, after = before ++ more ∧ sent' = sent ++ more.filter fun m => m.2.aboutJob

theorem Wrote.refl {before sent : List (SocketId × CoordToWorkerMsg)} : Wrote before before sent sent :=
  ⟨[], (List.append_nil _).symm, (List.append_nil _).symm⟩

theorem Wrote.trans {l₁ l₂ l₃ m₁ m₂ m₃ : List (SocketId × CoordToWorkerMsg)} (h : Wrote l₁ l₂ m₁ m₂)
    (h' : Wrote l₂ l₃ m₂ m₃) : Wrote l₁ l₃ m₁ m₃ := by
  obtain ⟨more, rfl, rfl⟩ := h
  obtain ⟨more', rfl, rfl⟩ := h'
  exact ⟨more ++ more', List.append_assoc .., by rw [List.filter_append, List.append_assoc]⟩

namespace HubProcess

/-- Coordinator `c` of the cluster is at what this hub is at, and at the rest. -/
structure Shown (s : HubProcess) (c : CoordinatorId) (rest : List Task) (u : Cluster) : Prop where
  db : u.db = s.db
  tasks : (u.tasksOf c).Perm (rest ++ s.handlers.filterMap Handler.await)
  roster : u.roster c = s.hub.roster

/-- Handlers at work on a message are handlers of the hub, and each hello, registered or
suspended, was read from the wire. -/
structure Heard (s : HubProcess) (wire : List (SocketId × WorkerToCoordMsg)) : Prop where
  parts : ∀ n state settled task, .onMessage n state settled task ∈ s.handlers → task.part = .hub
  hellos : ∀ ws workerId limit returned, .onHello ws workerId limit returned ∈ s.handlers →
    (ws, .workerHello workerId limit) ∈ wire
  roster : ∀ p ∈ s.hub.roster, ∃ limit, (p.2, .workerHello p.1 limit) ∈ wire

variable {s s' : HubProcess} {wire wire' : List (SocketId × WorkerToCoordMsg)} {a : HubAction}

theorem Heard.mono (h : s.Heard wire) (more : ∀ m ∈ wire, m ∈ wire') : s.Heard wire' where
  parts := h.parts
  hellos := fun ws workerId limit returned hm => more _ (h.hellos ws workerId limit returned hm)
  roster := by
    intro p hp
    obtain ⟨limit, hm⟩ := h.roster p hp
    exact ⟨limit, more _ hm⟩

/-- Where no handler and no entry is new. -/
theorem Heard.fewer (h : s.Heard wire) (handlers : ∀ handler ∈ s'.handlers, handler ∈ s.handlers)
    (roster : ∀ p ∈ s'.hub.roster, p ∈ s.hub.roster) : s'.Heard wire where
  parts := fun n state settled task hm => h.parts n state settled task (handlers _ hm)
  hellos := fun ws workerId limit returned hm => h.hellos ws workerId limit returned (handlers _ hm)
  roster := fun p hp => h.roster p (roster p hp)

theorem Heard.with_handlers (h : s.Heard wire) (handlers : List Handler)
    (parts : ∀ n state settled task, .onMessage n state settled task ∈ handlers → task.part = .hub)
    (hellos : ∀ ws workerId limit returned, .onHello ws workerId limit returned ∈ handlers →
      (ws, .workerHello workerId limit) ∈ wire)
    (new : ∀ handler ∈ s'.handlers, handler ∈ s.handlers ∨ handler ∈ handlers)
    (roster : s'.hub.roster = s.hub.roster) : s'.Heard wire where
  parts := by
    intro n state settled task hm
    rcases new _ hm with hm | hm
    · exact h.parts n state settled task hm
    · exact parts n state settled task hm
  hellos := by
    intro ws workerId limit returned hm
    rcases new _ hm with hm | hm
    · exact h.hellos ws workerId limit returned hm
    · exact hellos ws workerId limit returned hm
  roster := by
    rw [roster]
    exact h.roster

theorem settle_roster (hub : Hub) (state : Option StateRef) (settles : Bool) :
    (match state with
      | some r => if settles then hub.settle r else hub
      | none => hub : Hub).roster = hub.roster := by
  split
  · split
    · exact Hub.roster_modify (f := fun state => { state with inFlight := state.inFlight - 1 }) hub _
        (fun _ => rfl) fun _ => rfl
    · rfl
  · rfl

theorem sendJob_roster (hub : Hub) (isOpen : SocketId → Bool) (workerId : WorkerId) (msg : JobDispatch) :
    (hub.sendJob isOpen workerId msg).2.1.roster = hub.roster := by
  unfold Hub.sendJob
  split
  · rfl
  · exact Hub.roster_modify (f := fun state => { state with inFlight := state.inFlight + 1 }) hub _
      (fun _ => rfl) fun _ => rfl

theorem onMessage_part {ctx : Ctx} {state : Option WorkerId} {ws : SocketId} {msg : WorkerToCoordMsg}
    (other : msg.greeting = none) {t : Task} (ht : t ∈ onMessage ctx state ws msg) : t.part = .hub := by
  cases msg with
  | workerHello => cases other
  | jobFailed =>
    cases List.mem_singleton.mp ht
    rfl
  | jobResult | jobHeartbeat =>
    obtain ⟨_, _, rfl⟩ := List.mem_map.mp ht
    rfl
  | pong => cases ht

theorem Heard.finish (h : s.Heard wire) {i n : Nat} {state : Option StateRef} {settled settles : Bool}
    {task : Task} {o : Outcome} (hi : s.handlers[i]? = some (.onMessage n state settled task))
    (next : ∀ t ∈ o.next, t.part = task.part) : (s.finish i n state settled settles o).Heard wire := by
  have part := h.parts n state settled task (List.mem_of_getElem? hi)
  refine h.with_handlers (o.next.map fun t => .onMessage n state (settled || settles) t)
    ?_ ?_ ?_ (settle_roster _ _ _)
  · intro n state settled t hm
    obtain ⟨t', ht, same⟩ := List.mem_map.mp hm
    cases same
    exact (next _ ht).trans part
  · intro ws workerId limit returned hm
    obtain ⟨_, _, same⟩ := List.mem_map.mp hm
    cases same
  · intro handler hm
    rcases List.mem_append.mp hm with hm | hm
    · exact .inl (List.mem_of_mem_eraseIdx hm)
    · exact .inr hm

theorem Heard.answered (h : s.Heard wire) {i : Nat} {old new : Handler}
    (hi : s.handlers[i]? = some old) (ended : old.answered = some new)
    (handlers : s'.handlers = s.handlers.set i new) (roster : s'.hub.roster = s.hub.roster) :
    s'.Heard wire := by
  refine h.with_handlers [new] ?_ ?_ (fun handler hm => ?_) roster
  · intro n state settled task hm
    cases List.mem_singleton.mp hm
    rcases Handler.answered_cases ended with ⟨_, _, _, _, same⟩ | ⟨_, _, _, same⟩ <;> cases same
  · intro ws workerId limit returned hm
    cases List.mem_singleton.mp hm
    rcases Handler.answered_cases ended with ⟨_, _, _, rfl, same⟩ | ⟨_, _, _, same⟩
    · cases same
      exact h.hellos _ _ _ _ (List.mem_of_getElem? hi)
    · cases same
  · rw [handlers] at hm
    exact (List.mem_or_eq_of_mem_set hm).imp_right List.mem_singleton.mpr

theorem Heard.registered (h : s.Heard wire) {i : Nat} {ws : SocketId} {workerId : WorkerId}
    {limit : Int} (hi : s.handlers[i]? = some (.onHello ws workerId limit true)) :
    ({ s with handlers := s.handlers.eraseIdx i }.register ws workerId limit).Heard wire := by
  obtain ⟨hub, _, handlers, _⟩ :=
    register_fields { s with handlers := s.handlers.eraseIdx i } ws workerId limit
  have fewer : ({ s with handlers := s.handlers.eraseIdx i } : HubProcess).Heard wire :=
    h.fewer (fun _ hm => List.mem_of_mem_eraseIdx hm) fun _ hp => hp
  constructor
  case parts =>
    rw [handlers]
    exact fewer.parts
  case hellos =>
    rw [handlers]
    exact fewer.hellos
  case roster =>
    rw [hub]
    intro p hp
    rcases Hub.mem_roster_set hp with rfl | hp
    · exact ⟨limit, h.hellos _ _ _ _ (List.mem_of_getElem? hi)⟩
    · exact h.roster p hp

/-- No step of the hub makes up a message. -/
theorem Heard.step (h : s.Heard wire) (taken : Moves s a s')
    (read : ∀ ws msg ctx, a = .message ws msg ctx → (ws, msg) ∈ wire) : s'.Heard wire := by
  cases taken with
  | connected | closing | unnamed | refused | others =>
    exact h.fewer (fun _ hm => hm) fun _ hp => hp
  | @greeted ws workerId limit ctx =>
    refine h.with_handlers [.onHello ws workerId limit false] ?_ ?_ ?_ rfl
    · intro n state settled task hm
      cases List.mem_singleton.mp hm
    · intro ws workerId limit returned hm
      cases List.mem_singleton.mp hm
      exact read _ _ ctx rfl
    · exact fun handler hm => List.mem_append.mp hm
  | heard other =>
    refine h.with_handlers _ ?_ ?_ (fun handler hm => List.mem_append.mp hm) rfl
    · intro n state settled task hm
      obtain ⟨t, ht, same⟩ := List.mem_map.mp hm
      cases same
      exact onMessage_part other ht
    · intro ws workerId limit returned hm
      obtain ⟨_, _, same⟩ := List.mem_map.mp hm
      cases same
  | left =>
    refine h.fewer (fun _ hm => hm) fun p hp => ?_
    rw [Hub.roster_deregister] at hp
    exact List.mem_of_mem_filter hp
  | pinged =>
    refine pingAll_invariant (P := fun s => s.Heard wire) s h (fun s ws h => ?_) fun s workerId ws h => ?_
    · exact h.fewer (fun _ hm => hm) fun _ hp => hp
    · refine h.fewer (fun _ hm => hm) fun p hp => ?_
      rw [Hub.roster_deregister] at hp
      exact List.mem_of_mem_filter hp
  | @called workerId r state limit =>
    refine h.with_handlers _ ?_ ?_ (fun handler hm => List.mem_append.mp hm)
      (Hub.roster_modify (f := fun state => { state with concurrencyLimit := limit }) s.hub r
        (fun _ => rfl) fun _ => rfl)
    · intro n state settled task hm
      cases List.mem_singleton.mp hm
    · intro ws workerId limit returned hm
      cases List.mem_singleton.mp hm
  | sent =>
    refine h.fewer (fun _ hm => hm) fun p hp => ?_
    rwa [sendJob_roster] at hp
  | upserted hi | updated hi => exact h.answered hi rfl rfl rfl
  | lost hi ended => exact h.answered hi ended rfl rfl
  | registered hi => exact h.registered hi
  | returned hi => exact h.fewer (fun _ hm => List.mem_of_mem_eraseIdx hm) fun _ hp => hp
  | resumed hi => exact h.finish hi fun t ht => resume_part ht
  | failed hi => exact h.finish hi fun t ht => fail_part ht

variable {c : CoordinatorId} {rest : List Task} {u v : Cluster}

/-- The cluster follows from one state of the hub to another. -/
structure Followed (s s' : HubProcess) (c : CoordinatorId) (rest : List Task) (u v : Cluster) :
    Prop where
  beside : Cluster.Beside c u v
  shown : s'.Shown c rest v
  wrote : Wrote s.sent s'.sent u.sent v.sent

theorem Followed.trans {t : HubProcess} {w : Cluster} (h : Followed s s' c rest u v)
    (h' : Followed s' t c rest v w) : Followed s t c rest u w :=
  ⟨h.beside.trans h'.beside, h'.shown, h.wrote.trans h'.wrote⟩

/-- The cluster stays where it is while the hub does what no cluster sees. -/
theorem Shown.stays (h : s.Shown c rest u) (db : s'.db = s.db)
    (handlers : s'.handlers.filterMap Handler.await = s.handlers.filterMap Handler.await)
    (roster : s'.hub.roster = s.hub.roster) (sent : ∃ more, s'.sent = s.sent ++ more ∧
      ∀ m ∈ more, m.2.aboutJob = false) : Followed s s' c rest u u := by
  obtain ⟨more, written, other⟩ := sent
  refine ⟨.refl, ⟨h.db.trans db.symm, handlers ▸ h.tasks, h.roster.trans roster.symm⟩, more, written, ?_⟩
  rw [List.filter_eq_nil_iff.mpr, List.append_nil]
  intro m hm
  rw [other m hm]
  exact Bool.false_ne_true

/-- A message that reaches the hub reaches the cluster. -/
theorem Shown.received (h : s.Shown c rest u) {ws : SocketId} {msg : WorkerToCoordMsg}
    (read : (ws, msg) ∈ u.wire) (ctx : Ctx)
    (db : s'.db = s.db) (roster : s'.hub.roster = s.hub.roster) (sent : s'.sent = s.sent)
    (handlers : s'.handlers.filterMap Handler.await = s.handlers.filterMap Handler.await ++
      onMessage ctx ((s.hub.roster.find? fun p => p.2 = ws).map Prod.fst) ws msg) :
    ∃ v, Followed s s' c rest u v := by
  obtain ⟨k, hk⟩ := List.getElem?_of_mem read
  have state := Cluster.stateByWs_roster u c ws
  rw [h.roster] at state
  have taken : Cluster.step u (.receive c k ctx) =
      some (u.spawn c (onMessage ctx (u.stateByWs c ws) ws msg)) := by simp only [Cluster.step, hk]
  refine ⟨_, Cluster.spawn_beside taken rfl, ?_, ?_⟩
  · refine ⟨h.db.trans db.symm, ?_, h.roster.trans roster.symm⟩
    rw [Cluster.spawn_tasksOf, handlers, state, ← List.append_assoc]
    exact h.tasks.append_right _
  · rw [sent]
    exact .refl

/-- The cluster forgets a registration as the hub does. -/
theorem Shown.left (h : s.Shown c rest u) (workerId : WorkerId) (ws : SocketId) (db : s'.db = s.db)
    (handlers : s'.handlers = s.handlers) (sent : s'.sent = s.sent)
    (hub : s'.hub = s.hub.deregister workerId ws) : ∃ v, Followed s s' c rest u v := by
  refine ⟨_, Cluster.left_beside workerId ws, ⟨h.db.trans db.symm, handlers ▸ h.tasks, ?_⟩, ?_⟩
  · rw [hub, Hub.roster_deregister, ← h.roster]
    exact Cluster.rosterOf_deregister workerId ws
  · rw [sent]
    exact .refl

theorem Shown.registered (h : s.Shown c rest u) (heard : s.Heard u.wire) {i : Nat} {ws : SocketId}
    {workerId : WorkerId} {limit : Int}
    (hi : s.handlers[i]? = some (.onHello ws workerId limit true)) : ∃ v,
      Followed s ({ s with handlers := s.handlers.eraseIdx i }.register ws workerId limit) c rest u v := by
  have later := heard.registered hi
  have db : ({ s with handlers := s.handlers.eraseIdx i }.register ws workerId limit).db = s.db := by
    unfold register
    split <;> rfl
  obtain ⟨hub, _, handlers, sent, _⟩ :=
    register_fields { s with handlers := s.handlers.eraseIdx i } ws workerId limit
  generalize ({ s with handlers := s.handlers.eraseIdx i } : HubProcess).register ws workerId limit = s'
    at *
  have split : (u.tasksOf c).Perm
      (.helloUpsert ws workerId :: (rest ++ s'.handlers.filterMap Handler.await)) := by
    refine h.tasks.trans ?_
    rw [handlers, filterMap_at Handler.await hi, filterMap_eraseIdx Handler.await hi]
    simp only [Handler.await, Option.toList_some, List.singleton_append, ← List.append_assoc]
    exact List.perm_middle
  obtain ⟨m, toward, mdb, msent, mtasks, mroster⟩ := Cluster.registers split
  obtain ⟨v, beside, vdb, vsent, vtasks, vroster⟩ := Cluster.registers_all (c := c) s'.hub.roster
    (Hub.roster_nodup _) (toward.wire ▸ later.roster)
  refine ⟨v, toward.trans beside, ⟨?_, vtasks.trans mtasks, ?_⟩, ?_⟩
  · exact vdb.trans (mdb.trans (h.db.trans db.symm))
  · rw [vroster, List.append_left_eq_self, List.filter_eq_nil_iff]
    intro p hp
    rw [decide_eq_true_iff, not_not, hub]
    apply Hub.roster_set_keys
    rw [mroster, h.roster] at hp
    rcases List.mem_append.mp hp with hp | hp
    · exact .inr (List.mem_of_mem_filter hp)
    · exact .inl (List.mem_singleton.mp hp)
  · rw [sent, vsent, msent]
    exact .refl

theorem finish_awaits {i n : Nat} {state : Option StateRef} {settled : Bool} {task : Task}
    (settles : Bool) (o : Outcome) (hi : s.handlers[i]? = some (.onMessage n state settled task)) :
    ∃ others, (s.handlers.filterMap Handler.await).Perm (task :: others) ∧
      (s.finish i n state settled settles o).handlers.filterMap Handler.await = others ++ o.next := by
  refine ⟨_, .trans (.of_eq (filterMap_at Handler.await hi)) List.perm_middle, ?_⟩
  have next : (o.next.map fun task => Handler.onMessage n state (settled || settles) task).filterMap
      Handler.await = o.next := by
    rw [List.filterMap_map]
    exact List.filterMap_some
  simp only [finish]
  rw [List.filterMap_append, next, filterMap_eraseIdx Handler.await hi]
  rfl

/-- A handler of the hub goes on, as a task of the cluster does. -/
theorem Shown.finished (h : s.Shown c rest u) {i n : Nat} {state : Option StateRef}
    {settled settles : Bool} {task : Task} {o : Outcome}
    (hi : s.handlers[i]? = some (.onMessage n state settled task))
    (acks : ∀ m ∈ o.sent, ∃ jobId, m.2 = .jobAck jobId)
    (goes : ∀ others, (u.tasksOf c).Perm (task :: others) → ∃ v, Cluster.Beside c u v ∧
      v.db = o.db ∧ v.sent = u.sent ++ o.sent ∧ (v.tasksOf c).Perm (others ++ o.next) ∧
        v.roster c = u.roster c) :
    ∃ v, Followed s (s.finish i n state settled settles o) c rest u v := by
  obtain ⟨others, before, after⟩ := finish_awaits settles o hi
  have split : (u.tasksOf c).Perm (task :: (rest ++ others)) :=
    (h.tasks.trans (before.append_left rest)).trans List.perm_middle
  obtain ⟨v, beside, db, sent, tasks, roster⟩ := goes _ split
  refine ⟨v, beside, ⟨db, ?_, ?_⟩, o.sent, rfl, ?_⟩
  · rw [after, ← List.append_assoc]
    exact tasks
  · exact (roster.trans h.roster).trans (settle_roster _ _ _).symm
  · rw [sent, List.filter_eq_self.mpr]
    intro m hm
    obtain ⟨jobId, ack⟩ := acks m hm
    rw [ack]
    rfl

/-- An await of a handler ends in the cluster as it does in the hub. -/
theorem Shown.resumed (h : s.Shown c rest u) (heard : s.Heard u.wire) {i n : Nat}
    {state : Option StateRef} {settled : Bool} {task : Task}
    (hi : s.handlers[i]? = some (.onMessage n state settled task)) (ctx : Ctx)
    (here : ctx.coordinatorId = c) : ∃ v, Followed s (s.finish i n state settled (task.settles settled)
        (task.resume { ctx with wsOpen := task.socket.any s.isOpen } (fun _ => none) s.db)) c rest u v := by
  have part := heard.parts n state settled task (List.mem_of_getElem? hi)
  refine h.finished hi (fun m hm => resume_acksOnly hm) fun others split => ?_
  have goes := Cluster.task_resumes split { ctx with wsOpen := task.socket.any s.isOpen } (.inl part)
  rw [resume_wsOf (fun _ => none) (by rw [part]; decide), h.db] at goes
  cases here
  exact goes

/-- A query that fails does so in the cluster as in the hub. -/
theorem Shown.failed (h : s.Shown c rest u) (heard : s.Heard u.wire) {i n : Nat}
    {state : Option StateRef} {settled : Bool} {task : Task}
    (hi : s.handlers[i]? = some (.onMessage n state settled task)) (error : String) : ∃ v,
      Followed s (s.finish i n state settled (task.settlesFailed settled) (task.fail s.db error))
        c rest u v := by
  have part := heard.parts n state settled task (List.mem_of_getElem? hi)
  refine h.finished hi (fun m hm => ?_) fun others split => ?_
  · rw [fail_sent] at hm
    cases hm
  · have goes := Cluster.task_fails split error (.inl part)
    rwa [h.db] at goes

/-- Each step of the hub is a run of the cluster at its coordinator. -/
theorem Shown.step (h : s.Shown c rest u) (heard : s.Heard u.wire) (taken : Moves s a s')
    (read : ∀ ws msg ctx, a = .message ws msg ctx → (ws, msg) ∈ u.wire)
    (here : ∀ i ctx, a = .resume i ctx → ctx.coordinatorId = c) (alone : ∀ db, a ≠ .others db)
    (handler : ∀ workerId msg, a ≠ .sendJob workerId msg) : ∃ v, Followed s s' c rest u v := by
  have nothing : ∃ more, s.sent = s.sent ++ more ∧ ∀ m ∈ more, m.2.aboutJob = false :=
    ⟨[], (List.append_nil _).symm, fun _ hm => by cases hm⟩
  cases taken with
  | connected | closing | unnamed | refused => exact ⟨u, h.stays rfl rfl rfl nothing⟩
  | @greeted ws workerId limit ctx =>
    refine h.received (read _ _ ctx rfl) ctx rfl rfl rfl ?_
    rw [List.filterMap_append]
    rfl
  | @heard ws msg ctx n other =>
    refine h.received (read _ _ ctx rfl) ctx rfl rfl rfl ?_
    rw [List.filterMap_append, Hub.stateByWs_roster, List.filterMap_map]
    exact congrArg _ List.filterMap_some
  | left named => exact h.left _ _ rfl rfl rfl rfl
  | pinged =>
    refine pingAll_invariant (P := fun t => ∃ v, Followed s t c rest u v) s
      ⟨u, h.stays rfl rfl rfl nothing⟩ (fun t ws ⟨v, followed⟩ => ?_) fun t workerId ws ⟨v, followed⟩ => ?_
    · have pinged : ∀ m ∈ [(ws, CoordToWorkerMsg.ping)], m.2.aboutJob = false := fun m hm => by
        rw [List.mem_singleton.mp hm]
        rfl
      exact ⟨v, followed.trans (followed.shown.stays rfl rfl rfl ⟨_, rfl, pinged⟩)⟩
    · have gone : ∃ w, Followed t { t with hub := t.hub.deregister workerId ws } c rest v w :=
        followed.shown.left workerId ws rfl rfl rfl rfl
      obtain ⟨w, further⟩ := gone
      exact ⟨w, followed.trans further⟩
  | @called workerId r state limit found =>
    have roster := Hub.roster_modify (f := fun state => { state with concurrencyLimit := limit }) s.hub r
      (fun _ => rfl) fun _ => rfl
    refine ⟨u, h.stays rfl ?_ roster ⟨[(state.ws, .setConcurrency limit)], rfl, fun m hm => ?_⟩⟩
    · rw [List.filterMap_append]
      exact List.append_nil _
    · rw [List.mem_singleton.mp hm]
      rfl
  | sent => exact absurd rfl (handler _ _)
  | upserted hi | updated hi =>
    exact ⟨u, h.stays rfl (filterMap_set_same Handler.await hi rfl) rfl nothing⟩
  | lost hi ended =>
    refine ⟨u, h.stays rfl (filterMap_set_same Handler.await hi ?_) rfl nothing⟩
    rcases Handler.answered_cases ended with ⟨_, _, _, rfl, rfl⟩ | ⟨_, _, rfl, rfl⟩ <;> rfl
  | registered hi => exact h.registered heard hi
  | returned hi => exact ⟨u, h.stays rfl (filterMap_eraseIdx_none Handler.await hi rfl) rfl nothing⟩
  | resumed hi => exact h.resumed heard hi _ (here _ _ rfl)
  | failed hi => exact h.failed heard hi _
  | others => exact absurd rfl (alone _)

end HubProcess

end Dispatcher
