import Mathlib.Data.List.Perm.Basic
import Dispatcher.Cluster.Events

namespace Dispatcher
open Tables

def Task.heard : Task → Option WorkerToCoordMsg
  | .resultLookup _ _ msg | .resultTx _ _ msg | .resultReAck _ msg => some (.jobResult msg)
  | .failedTx msg => some (.jobFailed msg)
  | .heartbeatUpdate _ msg _ => some (.jobHeartbeat msg)
  | .helloUpsert .. | .dispatchTx _ | .dispatchSend .. | .reaperTx _ | .submitLookup .. | .submitTx ..
  | .submitWinner .. | .cancelLookup _ | .cancelTx _ => none

def Task.found : Task → Option JobId
  | .dispatchSend _ job => some job.jobId
  | .cancelTx jobId => some jobId
  | _ => none

/-- Whatever a handler goes on to, it works on the same message. -/
theorem resume_heard {t t' : Task} {ctx : Ctx} {wsOf : WorkerId → Option SocketId} {db : Db}
    (ht : t' ∈ (t.resume ctx wsOf db).next) (hm : t'.heard = some m) : t.heard = some m := by
  cases t with
  | resultLookup ws workerId msg =>
    simp only [Task.resume] at ht
    split at ht
    · split at ht <;> cases List.mem_singleton.mp ht <;> exact hm
    · cases List.mem_singleton.mp ht
      exact hm
  | resultTx ws workerId msg =>
    simp only [Task.resume] at ht
    split at ht
    · split at ht <;> cases ht
    · cases List.mem_singleton.mp ht
      exact hm
  | dispatchTx | submitLookup | submitTx | cancelLookup | dispatchSend | resultReAck =>
    simp only [Task.resume] at ht
    repeat' split at ht
    all_goals first
      | cases ht; done
      | cases List.mem_singleton.mp ht; cases hm
  | helloUpsert | failedTx | heartbeatUpdate | reaperTx | submitWinner | cancelTx => cases ht

theorem fail_heard {t t' : Task} {error : String} {db : Db} (ht : t' ∈ (t.fail db error).next)
    (hm : t'.heard = some m) : t.heard = some m := by
  cases t with
  | resultLookup ws workerId msg =>
    cases List.mem_singleton.mp ht
    exact hm
  | submitLookup key payload =>
    cases List.mem_singleton.mp ht
    cases hm
  | _ => cases ht

theorem onMessage_heard {ctx : Ctx} {state : Option WorkerId} {ws : SocketId}
    {msg : WorkerToCoordMsg} {t : Task} (ht : t ∈ onMessage ctx state ws msg)
    (hm : t.heard = some m) : m = msg := by
  cases msg with
  | jobResult msg =>
    obtain ⟨w, _, rfl⟩ := List.mem_map.mp ht
    exact (Option.some.inj hm).symm
  | jobHeartbeat msg =>
    obtain ⟨w, _, rfl⟩ := List.mem_map.mp ht
    exact (Option.some.inj hm).symm
  | jobFailed msg =>
    cases List.mem_singleton.mp ht
    exact (Option.some.inj hm).symm
  | workerHello w limit =>
    cases List.mem_singleton.mp ht
    cases hm
  | pong => cases ht

/-- Jobs are never deleted. -/
theorem after_job {j : JobId} {v : JobView} (h : v.job.isSome) (e : Option JobEvent) :
    (v.after j e).job.isSome := by
  cases e with
  | none => exact h
  | some e => cases e <;> simp [JobView.after, JobEvent.apply, JobView.patchDispatched, h]

namespace Cluster

theorem finish_tasks {s : Cluster} {i : Nat} {c : CoordinatorId} {o : Outcome}
    {p : CoordinatorId × Task} (h : p ∈ (s.finish i c o).tasks) : p ∈ s.tasks ∨ p.2 ∈ o.next := by
  rcases List.mem_append.mp h with h | h
  · exact .inl (List.mem_of_mem_eraseIdx h)
  · obtain ⟨t, ht, rfl⟩ := List.mem_map.mp h
    exact .inr ht

theorem spawn_tasks {s : Cluster} {c : CoordinatorId} {next : List Task}
    {p : CoordinatorId × Task} (h : p ∈ (s.spawn c next).tasks) : p ∈ s.tasks ∨ p.2 ∈ next := by
  rcases List.mem_append.mp h with h | h
  · exact .inl h
  · obtain ⟨t, ht, rfl⟩ := List.mem_map.mp h
    exact .inr ht

def started (s : Cluster) : Action → List Task
  | .post _ idempotencyKey payload => match validateSubmit idempotencyKey payload with
    | .ok (key, payload) => [.submitLookup key payload]
    | .error _ => []
  | .delete _ jobId => [.cancelLookup jobId]
  | .receive c k ctx => match s.wire[k]? with
    | some (ws, msg) => onMessage ctx (s.stateByWs c ws) ws msg
    | none => []
  | .dispatchTick _ workerId => [.dispatchTx workerId]
  | .reaperTick _ ctx => [.reaperTx (ctx.nowMs + ctx.skewMs)]
  | .resume i ctx => match s.tasks[i]? with
    | some (c, t) => (t.resume { ctx with coordinatorId := c } (s.wsOf c) s.db).next
    | none => []
  | .fail i error => match s.tasks[i]? with
    | some (_, t) => (t.fail s.db error).next
    | none => []
  | .workerSend .. | .deregister .. | .crash _ | .skipTokens _ => []

inductive Starts (s : Cluster) : Action → Task → Prop where
  | submitted {c : CoordinatorId} {idempotencyKey payload : Option Json} {key : String}
      {payload' : Json} (valid : validateSubmit idempotencyKey payload = .ok (key, payload')) :
      Starts s (.post c idempotencyKey payload) (.submitLookup key payload')
  | deleted {c : CoordinatorId} {jobId : JobId} : Starts s (.delete c jobId) (.cancelLookup jobId)
  | received {c : CoordinatorId} {k : Nat} {ctx : Ctx} {ws : SocketId} {msg : WorkerToCoordMsg}
      {t : Task} (hk : s.wire[k]? = some (ws, msg))
      (ht : t ∈ onMessage ctx (s.stateByWs c ws) ws msg) : Starts s (.receive c k ctx) t
  | dispatched {c : CoordinatorId} {workerId : WorkerId} :
      Starts s (.dispatchTick c workerId) (.dispatchTx workerId)
  | reaped {c : CoordinatorId} {ctx : Ctx} :
      Starts s (.reaperTick c ctx) (.reaperTx (ctx.nowMs + ctx.skewMs))
  | resumed {i : Nat} {ctx : Ctx} {c : CoordinatorId} {t t' : Task}
      (hi : s.tasks[i]? = some (c, t))
      (ht : t' ∈ (t.resume { ctx with coordinatorId := c } (s.wsOf c) s.db).next) :
      Starts s (.resume i ctx) t'
  | failed {i : Nat} {error : String} {c : CoordinatorId} {t t' : Task}
      (hi : s.tasks[i]? = some (c, t)) (ht : t' ∈ (t.fail s.db error).next) :
      Starts s (.fail i error) t'

theorem started_starts {s : Cluster} {a : Action} {t : Task} (ht : t ∈ s.started a) :
    s.Starts a t := by
  cases a with
  | post c key payload =>
    simp only [started] at ht
    split at ht
    next valid =>
      cases List.mem_singleton.mp ht
      exact .submitted valid
    next => cases ht
  | delete c jobId =>
    cases List.mem_singleton.mp ht
    exact .deleted
  | receive c k ctx =>
    simp only [started] at ht
    split at ht
    next hk => exact .received hk ht
    next => cases ht
  | dispatchTick c workerId =>
    cases List.mem_singleton.mp ht
    exact .dispatched
  | reaperTick c ctx =>
    cases List.mem_singleton.mp ht
    exact .reaped
  | resume i ctx =>
    simp only [started] at ht
    split at ht
    next hi => exact .resumed hi ht
    next => cases ht
  | fail i error =>
    simp only [started] at ht
    split at ht
    next hi => exact .failed hi ht
    next => cases ht
  | workerSend | deregister | crash | skipTokens => cases ht

/-- A suspended handler was suspended before, or the step has started it. -/
theorem step_tasks {s s' : Cluster} {a : Action} {p : CoordinatorId × Task}
    (h : step s a = some s') (hp : p ∈ s'.tasks) : p ∈ s.tasks ∨ p.2 ∈ s.started a := by
  cases step_moves h with
  | submitted valid => simpa [started, valid] using spawn_tasks hp
  | received hk => simpa [started, hk] using spawn_tasks hp
  | resumed hi => simpa [started, hi] using finish_tasks hp
  | failed hi => simpa [started, hi] using finish_tasks hp
  | deleted | dispatched | reaped => exact spawn_tasks hp
  | crashed => exact .inl (List.mem_of_mem_filter hp)
  | refused | written | left | skipped => exact .inl hp

def ended (s : Cluster) : Action → List Task
  | .resume i _ | .fail i _ => (s.tasks[i]?).toList.map Prod.snd
  | .crash c => (s.tasks.filter fun p => p.1 = c).map Prod.snd
  | .post .. | .delete .. | .workerSend .. | .receive .. | .deregister .. | .dispatchTick ..
  | .reaperTick .. | .skipTokens _ => []

theorem spawn_perm (s : Cluster) (c : CoordinatorId) (next : List Task) :
    (s.spawn c next).tasks.map Prod.snd = s.tasks.map Prod.snd ++ next := by
  simp [spawn, Function.comp_def]

theorem finish_perm {s : Cluster} {i : Nat} {c : CoordinatorId} {t : Task} (o : Outcome)
    (hi : s.tasks[i]? = some (c, t)) :
    ((s.finish i c o).tasks.map Prod.snd ++ [t]).Perm (s.tasks.map Prod.snd ++ o.next) := by
  obtain ⟨hlt, ht⟩ := List.getElem?_eq_some_iff.mp hi
  have taken := (List.getElem_cons_eraseIdx_perm hlt).map Prod.snd
  rw [ht, List.map_cons] at taken
  have tasks : (s.finish i c o).tasks.map Prod.snd =
      (s.tasks.eraseIdx i).map Prod.snd ++ o.next := by
    simp [finish, Function.comp_def]
  rw [tasks]
  exact List.perm_append_singleton t _ |>.trans (taken.append_right o.next)

/-- Every task that a step starts or ends is accounted for. -/
theorem step_perm {s s' : Cluster} {a : Action} (h : step s a = some s') :
    (s'.tasks.map Prod.snd ++ s.ended a).Perm (s.tasks.map Prod.snd ++ s.started a) := by
  cases step_moves h with
  | submitted valid => simp [started, ended, valid, spawn_perm]
  | refused invalid => simp [started, ended, invalid]
  | received hk => simp [started, ended, hk, spawn_perm]
  | deleted | dispatched | reaped => simp [started, ended, spawn_perm]
  | resumed hi =>
    simp only [started, ended, hi]
    exact finish_perm _ hi
  | failed hi =>
    simp only [started, ended, hi]
    exact finish_perm _ hi
  | @crashed c =>
    have parts := (List.filter_append_perm (fun p : CoordinatorId × Task => p.1 ≠ c) s.tasks).map
      Prod.snd
    simpa [started, ended] using parts
  | written | left | skipped => exact .refl _

theorem wire_mono {s s' : Cluster} {a : Action} (h : step s a = some s') (hm : m ∈ s.wire) :
    m ∈ s'.wire := by
  cases step_moves h with
  | written => exact List.mem_append_left _ hm
  | _ => exact hm

def answered (s : Cluster) : Action → List Answer
  | .post _ idempotencyKey payload => match validateSubmit idempotencyKey payload with
    | .ok _ => []
    | .error response => [⟨.post idempotencyKey payload, response⟩]
  | .resume i ctx => match s.tasks[i]? with
    | some (c, t) => (t.resume { ctx with coordinatorId := c } (s.wsOf c) s.db).answers
    | none => []
  | .fail i error => match s.tasks[i]? with
    | some (_, t) => (t.fail s.db error).answers
    | none => []
  | .delete .. | .receive .. | .workerSend .. | .deregister .. | .dispatchTick .. | .reaperTick ..
  | .crash _ | .skipTokens _ => []

theorem step_answers {s s' : Cluster} {a : Action} (h : step s a = some s') :
    s'.answers = s.answers ++ s.answered a := by
  cases step_moves h with
  | submitted valid => simp [answered, valid, spawn]
  | refused invalid => simp [answered, invalid]
  | resumed hi => simp [answered, hi, finish]
  | failed hi => simp [answered, hi, finish]
  | deleted | written | received | left | dispatched | reaped | crashed | skipped =>
    exact (List.append_nil _).symm

/-- A handler at work on a message got it from the wire. -/
def Heard (s : Cluster) : Prop :=
  ∀ p ∈ s.tasks, ∀ m, p.2.heard = some m → ∃ ws, (ws, m) ∈ s.wire

theorem started_heard {s : Cluster} {a : Action} (hs : s.Heard) {t : Task}
    (ht : t ∈ s.started a) (hm : t.heard = some m) : ∃ ws, (ws, m) ∈ s.wire := by
  cases started_starts ht with
  | resumed hi ht => exact hs _ (List.mem_of_getElem? hi) m (resume_heard ht hm)
  | failed hi ht => exact hs _ (List.mem_of_getElem? hi) m (fail_heard ht hm)
  | received hk ht =>
    cases onMessage_heard ht hm
    exact ⟨_, List.mem_of_getElem? hk⟩
  | submitted | deleted | dispatched | reaped => cases hm

/-- No handler is at work on a message that no worker has sent. -/
theorem heard_reachable {s : Cluster} (h : Runs.Reachable step init s) : s.Heard := by
  refine h.invariant (fun p hp => by cases hp) ?_
  intro s a s' hs hstep p hp m hm
  obtain ⟨ws, hw⟩ : ∃ ws, (ws, m) ∈ s.wire := by
    rcases step_tasks hstep hp with hp | hp
    · exact hs p hp m hm
    · exact started_heard hs hp hm
  exact ⟨ws, wire_mono hstep hw⟩

/-- A message that a step sends, with the handler that sends it. -/
theorem step_sent_resumed {s s' : Cluster} {a : Action} (h : step s a = some s')
    (hm : m ∈ s'.sent) : m ∈ s.sent ∨ ∃ ctx t wsOf, s.resumed a = some (ctx, t) ∧
      s'.db = (t.resume ctx wsOf s.db).db ∧ m ∈ (t.resume ctx wsOf s.db).sent := by
  cases step_moves h with
  | @resumed i ctx c t hi =>
    rcases List.mem_append.mp hm with hm | hm
    · exact .inl hm
    · exact .inr ⟨_, t, s.wsOf c, by simp [resumed, hi], rfl, hm⟩
  | @failed i error c t hi =>
    have none : (t.fail s.db error).sent = [] := by cases t <;> rfl
    rcases List.mem_append.mp hm with hm | hm
    · exact .inl hm
    · rw [none] at hm
      cases hm
  | submitted | refused | deleted | written | received | left | dispatched | reaped | crashed
  | skipped => exact .inl hm

/-- Every message is sent by a handler that goes on. -/
theorem step_sent {s s' : Cluster} {a : Action} (h : step s a = some s') (hm : m ∈ s'.sent) :
    m ∈ s.sent ∨ ∃ ctx t wsOf, (∃ c, (c, t) ∈ s.tasks) ∧ m ∈ (t.resume ctx wsOf s.db).sent := by
  rcases step_sent_resumed h hm with hm | ⟨ctx, t, wsOf, hr, _, hm⟩
  · exact .inl hm
  · exact .inr ⟨ctx, t, wsOf, resumed_task hr, hm⟩

end Cluster

theorem resume_found {t t' : Task} {ctx : Ctx} {wsOf : WorkerId → Option SocketId} {db : Db}
    (ht : t' ∈ (t.resume ctx wsOf db).next) (hj : t'.found = some j) : (db.view j).job.isSome := by
  cases t with
  | dispatchTx workerId =>
    simp only [Task.resume, tryDispatchOneTx_eq] at ht
    cases hq : headOfQueue ctx db with
    | none => simp [hq] at ht
    | some r =>
      by_cases hl : (db.leases.lookup r.jobId).isSome
      · simp [hq, hl] at ht
      · simp only [hq, hl, Bool.false_eq_true, ↓reduceIte, List.mem_singleton] at ht
        subst ht
        cases hj
        simp [Db.view, (headOfQueue_spec hq).1]
  | cancelLookup jobId =>
    simp only [Task.resume] at ht
    cases hr : db.jobs.lookup jobId with
    | none => simp [hr] at ht
    | some r =>
      simp only [hr] at ht
      split at ht
      · cases List.mem_singleton.mp ht
        cases hj
        simp [Db.view, hr]
      · cases ht
  | submitLookup | submitTx | resultLookup | resultTx | dispatchSend | resultReAck =>
    simp only [Task.resume] at ht
    repeat' split at ht
    all_goals first
      | cases ht; done
      | cases List.mem_singleton.mp ht; cases hj
  | helloUpsert | failedTx | heartbeatUpdate | reaperTx | submitWinner | cancelTx => cases ht

theorem fail_found {t t' : Task} {error : String} {db : Db} (ht : t' ∈ (t.fail db error).next) :
    t'.found = none := by
  cases t with
  | resultLookup | submitLookup =>
    cases List.mem_singleton.mp ht
    rfl
  | _ => cases ht

theorem onMessage_found {ctx : Ctx} {state : Option WorkerId} {ws : SocketId}
    {msg : WorkerToCoordMsg} {t : Task} (ht : t ∈ onMessage ctx state ws msg) : t.found = none := by
  cases msg with
  | jobResult | jobHeartbeat =>
    obtain ⟨w, _, rfl⟩ := List.mem_map.mp ht
    rfl
  | jobFailed | workerHello =>
    cases List.mem_singleton.mp ht
    rfl
  | pong => cases ht

theorem resume_sent {t : Task} {ctx : Ctx} {wsOf : WorkerId → Option SocketId} {db : Db}
    {m : SocketId × CoordToWorkerMsg} {d : JobDispatch} (hm : m ∈ (t.resume ctx wsOf db).sent)
    (hd : m.2 = .jobDispatch d) : t.found = some d.jobId := by
  cases t with
  | dispatchSend workerId job =>
    simp only [Task.resume, sendMsg] at hm
    split at hm
    · split at hm
      · cases List.mem_singleton.mp hm
        cases hd
        rfl
      · cases hm
    · cases hm
  | resultTx | resultReAck | resultLookup | dispatchTx | submitLookup | submitTx | cancelLookup =>
    simp only [Task.resume, sendMsg] at hm
    repeat' split at hm
    all_goals first
      | cases hm; done
      | cases List.mem_singleton.mp hm; cases hd
  | helloUpsert | failedTx | heartbeatUpdate | reaperTx | submitWinner | cancelTx => cases hm

namespace Cluster

/-- A job that a handler has found, or that was sent to a worker, was submitted. -/
structure Found (s : Cluster) : Prop where
  tasks : ∀ p ∈ s.tasks, ∀ j, p.2.found = some j → (s.db.view j).job.isSome
  sent : ∀ m ∈ s.sent, ∀ d, m.2 = .jobDispatch d → (s.db.view d.jobId).job.isSome

theorem started_found {s : Cluster} {a : Action} {t : Task} (ht : t ∈ s.started a)
    (hj : t.found = some j) : (s.db.view j).job.isSome := by
  cases started_starts ht with
  | resumed _ ht => exact resume_found ht hj
  | failed _ ht =>
    rw [fail_found ht] at hj
    cases hj
  | received _ ht =>
    rw [onMessage_found ht] at hj
    cases hj
  | submitted | deleted | dispatched | reaped => cases hj

theorem found_step {s s' : Cluster} {a : Action} (hs : s.Found) (h : step s a = some s') :
    s'.Found := by
  have keep : ∀ j, (s.db.view j).job.isSome → (s'.db.view j).job.isSome := by
    intro j hj
    rw [step_view h j]
    exact after_job hj _
  constructor
  · intro p hp j hj
    apply keep
    rcases step_tasks h hp with hp | hp
    · exact hs.tasks p hp j hj
    · exact started_found hp hj
  · intro m hm d hd
    apply keep
    rcases step_sent h hm with hm | ⟨ctx, t, wsOf, ⟨c, ht⟩, hm⟩
    · exact hs.sent m hm d hd
    · exact hs.tasks _ ht _ (resume_sent hm hd)

/-- No handler and no worker is at work on a job that was not submitted. -/
theorem found_reachable {s : Cluster} (h : Runs.Reachable step init s) : s.Found :=
  h.invariant ⟨by simp [init], by simp [init]⟩ fun _ _ _ => found_step

end Cluster

end Dispatcher
