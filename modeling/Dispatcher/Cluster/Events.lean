import Dispatcher.Job.Refinement

namespace Dispatcher
open Tables

/-- What the next query or transaction of a handler does to job `k`. -/
def Task.event (ctx : Ctx) (db : Db) (k : JobId) : Task → Option JobEvent
  | .resultTx _ workerId msg => if k = msg.jobId then resultEvent ctx workerId msg db else none
  | .failedTx msg => if k = msg.jobId then some (failedEvent ctx msg) else none
  | .heartbeatUpdate workerId msg newExpiry =>
    if k = msg.jobId then heartbeatEvent workerId msg newExpiry db else none
  | .dispatchTx workerId =>
    if dispatchedJob ctx db = some k then some (.dispatched ctx workerId (db.fencingSeq + 1))
    else none
  | .reaperTx now => if k ∈ reapedIds ctx now db then some (.reaped ctx) else none
  | .submitTx key payload => if k = ctx.freshId then submitEvent ctx key payload db else none
  | .cancelTx jobId => if k = jobId then some (.cancelled ctx) else none
  | .helloUpsert .. | .resultLookup .. | .resultReAck .. | .dispatchSend .. | .submitLookup ..
  | .submitWinner .. | .cancelLookup .. => none

theorem dispatchTx_db (ctx : Ctx) (wsOf : WorkerId → Option SocketId) (db : Db)
    (workerId : WorkerId) :
    ((Task.dispatchTx workerId).resume ctx wsOf db).db =
      match headOfQueue ctx db with
      | some job =>
        if (db.leases.lookup job.jobId).isSome then db else dispatchedDb ctx workerId job db
      | none => db := by
  simp only [Task.resume, tryDispatchOneTx_eq]
  cases headOfQueue ctx db with
  | none => rfl
  | some job => by_cases hl : (db.leases.lookup job.jobId).isSome <;> simp [hl]

theorem dispatchTx_view (ctx : Ctx) (wsOf : WorkerId → Option SocketId) (db : Db)
    (workerId : WorkerId) (k : JobId) :
    ((Task.dispatchTx workerId).resume ctx wsOf db).db.view k =
      (db.view k).after k ((Task.dispatchTx workerId).event ctx db k) := by
  rw [dispatchTx_db]
  simp only [Task.event, dispatchedJob]
  rcases Option.eq_none_or_eq_some (headOfQueue ctx db) with hq | ⟨job, hq⟩
  · simp [hq, JobView.after]
  rcases Option.eq_none_or_eq_some (db.leases.lookup job.jobId) with hl | ⟨l, hl⟩
  · have hv := dispatchedDb_view ctx workerId hl k
    simp [hq, hl, hv, eq_comm (a := k)]
  · simp [hq, hl, JobView.after]

theorem dispatchedDb_seq (ctx : Ctx) (workerId : WorkerId) (job : Job) (db : Db) :
    (dispatchedDb ctx workerId job db).fencingSeq = db.fencingSeq + 1 := rfl

/-- A handler step does to each job what its event says. -/
theorem resume_view (t : Task) (ctx : Ctx) (wsOf : WorkerId → Option SocketId) (db : Db)
    (k : JobId) : (t.resume ctx wsOf db).db.view k = (db.view k).after k (t.event ctx db k) := by
  cases t with
  | resultTx ws workerId msg =>
    have hv := onResultTx_view ctx workerId msg db k
    simp only [Task.resume, Task.event, ← hv]
    split
    · split <;> rfl
    · rfl
  | failedTx msg => exact onFailedTx_view ctx msg db k
  | heartbeatUpdate workerId msg newExpiry => exact onHeartbeatUpdate_view workerId msg newExpiry db k
  | dispatchTx workerId => exact dispatchTx_view ctx wsOf db workerId k
  | reaperTx now => exact reaperTx_view ctx now db k
  | submitTx key payload =>
    simp only [Task.resume, Task.event]
    cases hs : submitTx ctx key payload db with
    | ok p => exact submitTx_view hs k
    | error e => cases e <;> simp [submitTx_error hs, JobView.after]
  | cancelTx jobId => exact cancelTx_view ctx jobId db k
  | resultLookup ws workerId msg =>
    simp only [Task.resume, Task.event, JobView.after]
    split
    · split <;> rfl
    · rfl
  | helloUpsert | submitWinner => rfl
  | resultReAck | dispatchSend | submitLookup | cancelLookup =>
    simp only [Task.resume, Task.event, JobView.after]
    repeat' split
    all_goals rfl

/-- Every way in which a transaction does something to job `k`. -/
inductive TaskEvent (ctx : Ctx) (db : Db) (k : JobId) : Task → JobEvent → Prop where
  | accepted {ws : SocketId} {workerId : WorkerId} {msg : JobResult} (named : msg.jobId = k)
      (held : db.holds k workerId msg.token = true)
      (dispatched : db.statusOf k = some .dispatched) :
      TaskEvent ctx db k (.resultTx ws workerId msg) (.accepted ctx workerId msg.token msg.result)
  | discarded {ws : SocketId} {workerId : WorkerId} {msg : JobResult} (named : msg.jobId = k)
      (held : db.holds k workerId msg.token = true) (left : db.statusOf k ≠ some .dispatched) :
      TaskEvent ctx db k (.resultTx ws workerId msg) .discarded
  | requeued {msg : JobFailed} (named : msg.jobId = k) (temporary : msg.temporary = true) :
      TaskEvent ctx db k (.failedTx msg) (.requeued ctx)
  | failed {msg : JobFailed} (named : msg.jobId = k) (final : msg.temporary = false) :
      TaskEvent ctx db k (.failedTx msg) (.failed ctx)
  | extended {workerId : WorkerId} {msg : JobHeartbeat} {newExpiry : Int} (named : msg.jobId = k)
      (held : db.holds k workerId msg.token = true) :
      TaskEvent ctx db k (.heartbeatUpdate workerId msg newExpiry) (.extended newExpiry)
  | dispatched {workerId : WorkerId} (head : dispatchedJob ctx db = some k) :
      TaskEvent ctx db k (.dispatchTx workerId) (.dispatched ctx workerId (db.fencingSeq + 1))
  | reaped {now : Int} (expired : k ∈ reapedIds ctx now db) :
      TaskEvent ctx db k (.reaperTx now) (.reaped ctx)
  | submitted {key : String} {payload : Json} (fresh : k = ctx.freshId)
      (unused : db.jobs.lookup k = none)
      (unique : db.jobs.rows.any (fun r => r.idempotencyKey = key) = false) :
      TaskEvent ctx db k (.submitTx key payload) (.submitted ctx key payload)
  | cancelled : TaskEvent ctx db k (.cancelTx k) (.cancelled ctx)

/-- Every event of a transaction is one of these. -/
theorem event_cases {t : Task} {ctx : Ctx} {db : Db} {k : JobId} {e : JobEvent}
    (h : t.event ctx db k = some e) : TaskEvent ctx db k t e := by
  cases t with
  | resultTx ws workerId msg =>
    simp only [Task.event, resultEvent, Option.ite_none_right_eq_some] at h
    obtain ⟨rfl, held, h⟩ := h
    split at h
    next dispatched =>
      cases h
      exact .accepted rfl held dispatched
    next left =>
      cases h
      exact .discarded rfl held left
  | failedTx msg =>
    simp only [Task.event, failedEvent, Option.ite_none_right_eq_some, Option.some.injEq] at h
    obtain ⟨rfl, rfl⟩ := h
    split
    next temporary => exact .requeued rfl temporary
    next final => exact .failed rfl (Bool.eq_false_iff.mpr final)
  | heartbeatUpdate workerId msg newExpiry =>
    simp only [Task.event, heartbeatEvent, Option.ite_none_right_eq_some, Option.some.injEq] at h
    obtain ⟨rfl, held, rfl⟩ := h
    exact .extended rfl held
  | dispatchTx workerId =>
    simp only [Task.event, Option.ite_none_right_eq_some, Option.some.injEq] at h
    obtain ⟨head, rfl⟩ := h
    exact .dispatched head
  | reaperTx now =>
    simp only [Task.event, Option.ite_none_right_eq_some, Option.some.injEq] at h
    obtain ⟨expired, rfl⟩ := h
    exact .reaped expired
  | submitTx key payload =>
    simp only [Task.event, submitEvent, Option.ite_none_right_eq_some,
      Option.ite_none_left_eq_some, Option.some.injEq, Bool.or_eq_true, not_or, Bool.not_eq_true,
      Option.isSome_eq_false_iff, Option.isNone_iff_eq_none] at h
    obtain ⟨rfl, ⟨unused, unique⟩, rfl⟩ := h
    exact .submitted rfl unused unique
  | cancelTx jobId =>
    simp only [Task.event, Option.ite_none_right_eq_some, Option.some.injEq] at h
    obtain ⟨rfl, rfl⟩ := h
    exact .cancelled
  | helloUpsert | resultLookup | resultReAck | dispatchSend | submitLookup | submitWinner
  | cancelLookup => cases h

/-- A transaction does to a job only what can happen to it. -/
theorem event_enabled {t : Task} {ctx : Ctx} {db : Db} {k : JobId} {e : JobEvent}
    (h : t.event ctx db k = some e) : e.Enabled db.fencingSeq (db.view k) := by
  cases event_cases h with
  | accepted _ held dispatched => exact ⟨dispatched, holds_iff.mp held⟩
  | discarded _ _ left => exact left
  | dispatched head =>
    obtain ⟨pending, unleased, _⟩ := dispatchedJob_spec head
    exact ⟨pending, unleased, Nat.lt_succ_self _⟩
  | reaped expired =>
    obtain ⟨_, _, _, dispatched, _⟩ := mem_reapedIds.mp expired
    exact dispatched
  | submitted _ unused _ => exact unused
  | requeued | failed | extended | cancelled => trivial

/-- The handler that an event comes from, where it says which. -/
def JobEvent.Origin (k : JobId) (t : Task) : JobEvent → Prop
  | .accepted _ workerId token result =>
    ∃ ws msg, t = .resultTx ws workerId msg ∧ msg.jobId = k ∧ msg.token = token ∧ msg.result = result
  | .requeued _ => ∃ msg, t = .failedTx msg ∧ msg.jobId = k ∧ msg.temporary = true
  | .failed _ => ∃ msg, t = .failedTx msg ∧ msg.jobId = k ∧ msg.temporary = false
  | .cancelled _ => t = .cancelTx k
  | .submitted _ key payload => t = .submitTx key payload
  | .dispatched .. | .discarded | .reaped _ | .extended _ => True

theorem event_origin {t : Task} {ctx : Ctx} {db : Db} {k : JobId} {e : JobEvent}
    (h : t.event ctx db k = some e) : e.Origin k t := by
  cases event_cases h with
  | @accepted ws workerId msg named => exact ⟨ws, msg, rfl, named, rfl, rfl⟩
  | @requeued msg named temporary => exact ⟨msg, rfl, named, temporary⟩
  | @failed msg named final => exact ⟨msg, rfl, named, final⟩
  | submitted | cancelled => rfl
  | discarded | extended | dispatched | reaped => trivial

def JobEvent.ctx : JobEvent → Option Ctx
  | .submitted ctx _ _ | .dispatched ctx _ _ | .accepted ctx _ _ _ | .requeued ctx | .failed ctx
  | .reaped ctx | .cancelled ctx => some ctx
  | .discarded | .extended _ => none

theorem event_ctx {t : Task} {ctx : Ctx} {db : Db} {k : JobId} {e : JobEvent}
    (h : t.event ctx db k = some e) (hc : e.ctx = some c) : c = ctx := by
  cases event_cases h with
  | accepted | requeued | failed | dispatched | reaped | submitted | cancelled =>
    exact (Option.some.inj hc).symm
  | discarded | extended => cases hc

theorem onResultTx_seq (ctx : Ctx) (workerId : WorkerId) (msg : JobResult) (db : Db) :
    (onResultTx ctx workerId msg db).2.fencingSeq = db.fencingSeq := by
  unfold onResultTx
  simp only
  split
  · rfl
  · split <;> rfl

theorem submitTx_seq {ctx : Ctx} {key : String} {payload : Json} {db db' : Db} {j : JobId}
    (h : submitTx ctx key payload db = .ok (j, db')) : db'.fencingSeq = db.fencingSeq := by
  unfold submitTx Db.insertJob at h
  split at h
  · cases h
  · rename_i db₁ hi
    cases h
    split at hi
    · cases hi
    · split at hi <;> cases hi
      rfl

/-- Only a dispatch takes a token from the sequence. -/
def Task.tokens (ctx : Ctx) (db : Db) : Task → Nat
  | .dispatchTx _ => if (dispatchedJob ctx db).isSome then 1 else 0
  | _ => 0

theorem resume_seq (t : Task) (ctx : Ctx) (wsOf : WorkerId → Option SocketId) (db : Db) :
    (t.resume ctx wsOf db).db.fencingSeq = db.fencingSeq + t.tokens ctx db := by
  cases t with
  | dispatchTx workerId =>
    rw [dispatchTx_db]
    unfold Task.tokens dispatchedJob
    cases headOfQueue ctx db with
    | none => rfl
    | some job =>
      by_cases hl : (db.leases.lookup job.jobId).isSome
      · simp [hl]
      · simp [hl, dispatchedDb_seq]
  | resultTx ws workerId msg =>
    have hs := onResultTx_seq ctx workerId msg db
    simp only [Task.resume]
    split
    · split <;> simp [hs, Task.tokens]
    · simp [hs, Task.tokens]
  | failedTx msg =>
    simp only [Task.resume, onFailedTx]
    split <;> rfl
  | reaperTx now =>
    simp only [Task.resume, reaperTx_eq]
    split <;> rfl
  | submitTx key payload =>
    simp only [Task.resume]
    split
    · rename_i h
      simp [submitTx_seq h, Task.tokens]
    all_goals rfl
  | resultLookup ws workerId msg =>
    simp only [Task.resume]
    split
    · split <;> rfl
    · rfl
  | helloUpsert | submitWinner | cancelTx | heartbeatUpdate => rfl
  | resultReAck | dispatchSend | submitLookup | cancelLookup =>
    simp only [Task.resume]
    repeat' split
    all_goals rfl

theorem resume_seq_mono (t : Task) (ctx : Ctx) (wsOf : WorkerId → Option SocketId) (db : Db) :
    db.fencingSeq ≤ (t.resume ctx wsOf db).db.fencingSeq := by
  have hs := resume_seq t ctx wsOf db
  omega

/-- Whatever token an event has used, the sequence has given it out. -/
theorem event_seq {t : Task} {ctx : Ctx} {wsOf : WorkerId → Option SocketId} {db : Db} {k : JobId}
    {e : JobEvent} (h : t.event ctx db k = some e) :
    e.seq db.fencingSeq ≤ (t.resume ctx wsOf db).db.fencingSeq := by
  have hm := resume_seq_mono t ctx wsOf db
  cases event_cases h with
  | @dispatched workerId head =>
    have hs := resume_seq (.dispatchTx workerId) ctx wsOf db
    simp only [Task.tokens, head, Option.isSome_some, ↓reduceIte] at hs
    exact hs.ge
  | accepted | discarded | requeued | failed | extended | reaped | submitted | cancelled =>
    exact hm

/-- A failed query or transaction leaves the database alone. -/
theorem fail_db (t : Task) (error : String) (db : Db) : (t.fail db error).db = db := by
  cases t <;> rfl

namespace Cluster

def resumed (s : Cluster) : Action → Option (Ctx × Task)
  | .resume i ctx => (s.tasks[i]?).map fun p => ({ ctx with coordinatorId := p.1 }, p.2)
  | _ => none

/-- What a step of the cluster does to job `j`. -/
def event (s : Cluster) (a : Action) (j : JobId) : Option JobEvent :=
  (s.resumed a).bind fun p => p.2.event p.1 s.db j

theorem resumed_task {s : Cluster} {a : Action} {ctx : Ctx} {t : Task}
    (h : s.resumed a = some (ctx, t)) : ∃ c, (c, t) ∈ s.tasks := by
  cases a with
  | resume i ctx' =>
    obtain ⟨p, hi, hp⟩ := Option.map_eq_some_iff.mp h
    cases hp
    exact ⟨p.1, List.mem_of_getElem? hi⟩
  | _ => cases h

def cancels (s : Cluster) (a : Action) : Option JobId :=
  match s.resumed a with
  | some (_, .cancelTx jobId) => some jobId
  | _ => none

/-- A cancel transaction is what cancels a job. -/
theorem cancels_event {s : Cluster} {a : Action} {j : JobId} :
    s.cancels a = some j ↔ ∃ ctx, s.event a j = some (.cancelled ctx) := by
  unfold cancels event
  constructor
  · intro h
    split at h
    · rename_i ctx k hr
      cases h
      exact ⟨ctx, by simp [hr, Task.event]⟩
    · cases h
  · rintro ⟨ctx, h⟩
    obtain ⟨⟨ctx', t⟩, hr, he⟩ := Option.bind_eq_some_iff.mp h
    have ht : t = .cancelTx j := event_origin he
    simp [hr, ht]

inductive Moves (s : Cluster) : Action → Cluster → Prop where
  | submitted {c : CoordinatorId} {idempotencyKey payload : Option Json} {key : String}
      {payload' : Json} (valid : validateSubmit idempotencyKey payload = .ok (key, payload')) :
      Moves s (.post c idempotencyKey payload) (s.spawn c [.submitLookup key payload'])
  | refused {c : CoordinatorId} {idempotencyKey payload : Option Json} {response : Response}
      (invalid : validateSubmit idempotencyKey payload = .error response) :
      Moves s (.post c idempotencyKey payload)
        { s with answers := s.answers ++ [⟨.post idempotencyKey payload, response⟩] }
  | deleted {c : CoordinatorId} {jobId : JobId} :
      Moves s (.delete c jobId) (s.spawn c [.cancelLookup jobId])
  | written {ws : SocketId} {msg : WorkerToCoordMsg} :
      Moves s (.workerSend ws msg) { s with wire := s.wire ++ [(ws, msg)] }
  | received {c : CoordinatorId} {k : Nat} {ctx : Ctx} {ws : SocketId} {msg : WorkerToCoordMsg}
      (hk : s.wire[k]? = some (ws, msg)) :
      Moves s (.receive c k ctx) (s.spawn c (onMessage ctx (s.stateByWs c ws) ws msg))
  | left {c : CoordinatorId} {workerId : WorkerId} {ws : SocketId} :
      Moves s (.deregister c workerId ws) { s with registry := s.registry.filter fun r =>
        !(r.coordinatorId = c && r.workerId = workerId && r.ws = ws) }
  | dispatched {c : CoordinatorId} {workerId : WorkerId} :
      Moves s (.dispatchTick c workerId) (s.spawn c [.dispatchTx workerId])
  | reaped {c : CoordinatorId} {ctx : Ctx} :
      Moves s (.reaperTick c ctx) (s.spawn c [.reaperTx (ctx.nowMs + ctx.skewMs)])
  | resumed {i : Nat} {ctx : Ctx} {c : CoordinatorId} {t : Task}
      (hi : s.tasks[i]? = some (c, t)) : Moves s (.resume i ctx)
        (s.finish i c (t.resume { ctx with coordinatorId := c } (s.wsOf c) s.db))
  | failed {i : Nat} {error : String} {c : CoordinatorId} {t : Task}
      (hi : s.tasks[i]? = some (c, t)) :
      Moves s (.fail i error) (s.finish i c (t.fail s.db error))
  | crashed {c : CoordinatorId} : Moves s (.crash c) { s with
      tasks := s.tasks.filter fun p => p.1 ≠ c
      registry := s.registry.filter fun r => r.coordinatorId ≠ c }
  | skipped {n : Nat} :
      Moves s (.skipTokens n) { s with db := { s.db with fencingSeq := s.db.fencingSeq + n } }

theorem step_moves {s s' : Cluster} {a : Action} (h : step s a = some s') : Moves s a s' := by
  cases a with
  | post c key payload =>
    simp only [step] at h
    split at h
    next valid =>
      cases h
      exact .submitted valid
    next invalid =>
      cases h
      exact .refused invalid
  | delete c jobId =>
    cases h
    exact .deleted
  | workerSend ws msg =>
    cases h
    exact .written
  | receive c k ctx =>
    simp only [step] at h
    split at h
    next hk =>
      cases h
      exact .received hk
    next => cases h
  | deregister c workerId ws =>
    cases h
    exact .left
  | dispatchTick c workerId =>
    cases h
    exact .dispatched
  | reaperTick c ctx =>
    cases h
    exact .reaped
  | resume i ctx =>
    simp only [step] at h
    split at h
    next hi =>
      cases h
      exact .resumed hi
    next => cases h
  | fail i error =>
    simp only [step] at h
    split at h
    next hi =>
      cases h
      exact .failed hi
    next => cases h
  | crash c =>
    cases h
    exact .crashed
  | skipTokens n =>
    cases h
    exact .skipped

/-- What a step can do to the database. -/
theorem step_db {s s' : Cluster} {a : Action} (h : step s a = some s') :
    (s.resumed a = none ∧ ∃ n, s'.db = { s.db with fencingSeq := s.db.fencingSeq + n }) ∨
    ∃ ctx t wsOf, s.resumed a = some (ctx, t) ∧ s'.db = (t.resume ctx wsOf s.db).db := by
  have same : s'.db = s.db → ∃ n, s'.db = { s.db with fencingSeq := s.db.fencingSeq + n } :=
    fun hd => ⟨0, hd⟩
  cases step_moves h with
  | @resumed i ctx c t hi => exact .inr ⟨_, t, s.wsOf c, by simp [resumed, hi], rfl⟩
  | failed => exact .inl ⟨rfl, same (fail_db _ _ _)⟩
  | @skipped n => exact .inl ⟨rfl, n, rfl⟩
  | submitted | refused | deleted | written | received | left | dispatched | reaped | crashed =>
    exact .inl ⟨rfl, same rfl⟩

/-- Every step does to each job nothing, or one event. -/
theorem step_view {s s' : Cluster} {a : Action} (h : step s a = some s') (j : JobId) :
    s'.db.view j = (s.db.view j).after j (s.event a j) := by
  rcases step_db h with ⟨hr, n, hd⟩ | ⟨ctx, t, wsOf, hr, hd⟩
  · simp only [hd, event, hr]
    rfl
  · simp only [hd, event, hr, Option.bind_some]
    exact resume_view t ctx wsOf s.db j

/-- A step of the cluster does to a job only what can happen to it. -/
theorem step_enabled {s : Cluster} {a : Action} {j : JobId} {e : JobEvent}
    (h : s.event a j = some e) : e.Enabled s.db.fencingSeq (s.db.view j) := by
  obtain ⟨p, _, he⟩ := Option.bind_eq_some_iff.mp h
  exact event_enabled he

theorem step_seq {s s' : Cluster} {a : Action} (h : step s a = some s') (j : JobId) :
    (s.event a j).elim s.db.fencingSeq (·.seq s.db.fencingSeq) ≤ s'.db.fencingSeq := by
  rcases step_db h with ⟨hr, n, hd⟩ | ⟨ctx, t, wsOf, hr, hd⟩
  · simp only [hd, event, hr, Option.bind_none, Option.elim_none]
    omega
  · simp only [hd, event, hr, Option.bind_some]
    cases he : t.event ctx s.db j with
    | none => exact resume_seq_mono t ctx wsOf s.db
    | some e => exact event_seq he

/-- The invariant of one job, kept by every step. -/
theorem step_consistent {s s' : Cluster} {a : Action} (h : step s a = some s') {j : JobId}
    (hc : Consistent s.db.fencingSeq (s.db.view j)) :
    Consistent s'.db.fencingSeq (s'.db.view j) := by
  have hv := step_view h j
  have hs := step_seq h j
  rw [hv]
  cases he : s.event a j with
  | none =>
    rw [he] at hs
    exact hc.mono hs
  | some e =>
    rw [he] at hs
    exact (hc.step (step_enabled he)).mono hs

theorem consistent_init (j : JobId) : Consistent init.db.fencingSeq (init.db.view j) := by
  have hv : init.db.view j = ⟨none, none, [], [], []⟩ := rfl
  rw [hv]
  refine ⟨Fencing.Sound.fresh, ?_, ?_, ?_, ?_, ?_, ?_, ?_, ?_⟩
  all_goals simp [JobView.status, JobView.result]

/-- The tables fit together in every state that the cluster can reach. -/
theorem consistent_reachable {s : Cluster} (h : Runs.Reachable step init s) (j : JobId) :
    Consistent s.db.fencingSeq (s.db.view j) :=
  h.invariant (consistent_init j) fun _ _ _ hc hs => step_consistent hs hc

end Cluster

end Dispatcher
