import Dispatcher.Sql.Atomic

namespace Dispatcher
open Tables ReadCommitted Runs

/-- The tables with the sequence, which no rollback undoes. -/
def Db.under (v : Db) (e : Env) : Db := { v with fencingSeq := e.fencingSeq }

namespace Prog

/-- A transaction as one function. Where a statement throws it rolls back, and only
what `nextval` has drawn stays drawn. -/
def body : Prog → Db → Option Db
  | submitJob ctx key payload, db => match submitTx ctx key payload db with
    | .ok (_, db) => some db
    | .error _ => some db
  | cancelJob ctx j, db => some (cancelTx ctx j db)
  | dispatchSelect ctx workerId _, db => match tryDispatchOneTx ctx workerId db with
    | .ok (_, db) => some db
    | .error _ => some { db with fencingSeq := db.fencingSeq + 1 }
  | resultLease ctx workerId msg, db => some (onResultTx ctx workerId msg db).2
  | failedLease ctx msg, db => some (onFailedTx ctx msg db)
  | heartbeatLease workerId msg newExpiry, db =>
    some (onHeartbeatUpdate workerId msg newExpiry db)
  | reaperSelect ctx now _, db => some (reaperTx ctx now db)
  | _, _ => none

/-- What a transaction reads besides the tables is what it finds when it is alone. -/
def Undisturbed (clockUs : Int) : Prog → Prop
  | dispatchSelect ctx .. => ctx.pgClockUs = clockUs ∧ ∀ j, ctx.locked j = false
  | reaperSelect ctx .. => ∀ j, ctx.locked j = false
  | _ => True

variable {v db' : Db} {e : Env} {ctx : Ctx}

theorem submit_does {key : String} {payload : Json} {j : JobId}
    (h : submitTx ctx key payload (v.under e) = .ok (j, db')) :
    ∃ v', (submitJob ctx key payload).Does v e (some v') e ∧ v'.under e = db' := by
  simp only [submitTx] at h
  split at h
  · cases h
  rename_i db₁ inserted
  cases h
  have row : ∃ v₁, v.insertJob ⟨ctx.freshId, key, payload, .pending, none, ctx.pgNowMs, ctx.pgNowMs⟩ =
      .ok v₁ ∧ v₁.under e = db₁ := by
    simp only [Db.insertJob] at inserted ⊢
    split at inserted
    · cases inserted
    rename_i taken
    split at inserted
    · cases inserted
    rename_i known
    cases inserted
    have fresh : ¬(v.jobs.lookup ctx.freshId).isSome = true := taken
    have other : ¬(v.jobs.rows.any fun r => decide (r.idempotencyKey = key)) = true := known
    exact ⟨_, by rw [if_neg fresh, if_neg other], rfl⟩
  obtain ⟨v₁, row, rfl⟩ := row
  exact ⟨_, does_sql rfl (Sql.insertJob_does row) (does_sql rfl (Sql.insert_does _ _) (does_done _ _)),
    rfl⟩

/-- A submission that violates a key rolls back as a whole. -/
theorem submit_throws {key : String} {payload : Json} {error : PgError}
    (h : submitTx ctx key payload (v.under e) = .error error) :
    (submitJob ctx key payload).Does v e none e := by
  simp only [submitTx] at h
  split at h
  · rename_i error' thrown
    refine does_throw rfl rfl (Bool.or_eq_true_iff.mpr ?_)
    simp only [Db.insertJob] at thrown
    split at thrown
    case isTrue taken => exact .inl taken
    case isFalse =>
      split at thrown
      case isTrue known => exact .inr known
      case isFalse => cases thrown
  · cases h

theorem cancel_does (v : Db) (e : Env) (ctx : Ctx) (j : JobId) :
    (cancelJob ctx j).Does v e (some (cancelTx ctx j v)) e :=
  does_sql rfl (Sql.updateJobs_does _ _ _) (does_sql rfl (Sql.insert_does _ _) (does_done _ _))

theorem headOfQueue_unlocked (unlocked : ∀ j, ctx.locked j = false) (db : Db) :
    headOfQueue ctx db = oldest (db.jobs.rows.filter fun r => r.status = .pending) := by
  simp [headOfQueue, unlocked]

theorem grant_does {workerId : WorkerId} {job : Job} (there : v.jobs.lookup job.jobId = some job)
    (unleased : ¬(v.leases.lookup job.jobId).isSome = true) (clock : ctx.pgClockUs = e.clockUs) :
    ∃ v', (dispatchLease ⟨ctx, workerId, job.jobId, (nextval e).2, e.clockUs⟩).Does v (nextval e).1
        (some v') (nextval e).1 ∧
      v'.under (nextval e).1 = dispatchedDb ctx workerId job (v.under e) := by
  let g : Grant := ⟨ctx, workerId, job.jobId, (nextval e).2, e.clockUs⟩
  have granted : v.insertLease g.lease = .ok { v with leases := v.leases.insert g.lease } := by
    have free : ¬(v.leases.lookup g.lease.jobId).isSome = true := unleased
    have known : ¬(v.jobs.lookup g.lease.jobId).isNone = true := by
      simp [g, Grant.lease, there]
    simp only [Db.insertLease]
    rw [if_neg free, if_neg known]
  refine ⟨_, does_sql rfl (Sql.insertLease_does granted) (does_sql rfl (Sql.updateJobs_does _ _ _)
    (does_sql rfl (Sql.insert_does _ _) (does_sql rfl (Sql.insert_does _ _) (does_done _ _)))), ?_⟩
  simp only [dispatchedDb, clock]
  rfl

/-- Alone, `nextval` and the clock give the same in either order. -/
theorem reads_does {workerId : WorkerId} {j : JobId} {v' : Option Db} {e' : Env} (clockFirst : Bool)
    (rest : (dispatchLease ⟨ctx, workerId, j, (nextval e).2, e.clockUs⟩).Does v (nextval e).1 v' e') :
    (dispatchRead ctx workerId clockFirst j).Does v e v' e' := by
  cases clockFirst with
  | true => exact does_call rfl (does_call (p := dispatchToken ctx workerId j e.clockUs) rfl rest)
  | false =>
    exact does_call rfl (does_call (p := dispatchClock ctx workerId j (nextval e).2) rfl rest)

/-- The statements of a dispatch, one after another, do what its body says, in either
order of the sequence and the clock. -/
theorem dispatch_does {workerId : WorkerId} {d : Option Dispatched} (clockFirst : Bool)
    (clock : ctx.pgClockUs = e.clockUs) (unlocked : ∀ j, ctx.locked j = false)
    (h : tryDispatchOneTx ctx workerId (v.under e) = .ok (d, db')) :
    ∃ v' e', (dispatchSelect ctx workerId clockFirst).Does v e (some v') e' ∧ v'.under e' = db' ∧
      e'.clockUs = e.clockUs := by
  rw [tryDispatchOneTx_eq, headOfQueue_unlocked unlocked] at h
  cases head : oldest ((v.under e).jobs.rows.filter fun r => r.status = .pending) with
  | none =>
    rw [head] at h
    cases h
    exact ⟨v, e, does_sql rfl (Sql.selectPending_none head) (does_done _ _), rfl, rfl⟩
  | some job =>
    rw [head] at h
    simp only at h
    split at h <;> cases h
    rename_i unleased
    have there : v.jobs.lookup job.jobId = some job :=
      Table.lookup_of_mem (List.mem_of_mem_filter (oldest_mem head))
    obtain ⟨v', granted, same⟩ := grant_does there unleased clock
    exact ⟨v', _, does_sql rfl (Sql.selectPending_does head)
      (does_sql rfl (Sql.advisoryLock_does v) (reads_does clockFirst granted)), same, rfl⟩

/-- The INSERT into `Leases` meets a lease of the job. -/
theorem dispatch_throws {workerId : WorkerId} {error : PgError} (clockFirst : Bool)
    (unlocked : ∀ j, ctx.locked j = false)
    (h : tryDispatchOneTx ctx workerId (v.under e) = .error error) :
    (dispatchSelect ctx workerId clockFirst).Does v e none (nextval e).1 := by
  rw [tryDispatchOneTx_eq, headOfQueue_unlocked unlocked] at h
  cases head : oldest ((v.under e).jobs.rows.filter fun r => r.status = .pending) with
  | none =>
    rw [head] at h
    cases h
  | some job =>
    rw [head] at h
    simp only at h
    split at h
    case isFalse => cases h
    case isTrue leased =>
      refine does_sql rfl (Sql.selectPending_does head)
        (does_sql rfl (Sql.advisoryLock_does v) (reads_does clockFirst (does_throw rfl rfl ?_)))
      exact Bool.or_eq_true_iff.mpr (.inl leased)

theorem result_does (v : Db) (e : Env) (ctx : Ctx) (workerId : WorkerId) (msg : JobResult) :
    (resultLease ctx workerId msg).Does v e (some (onResultTx ctx workerId msg v).2) e := by
  cases held : v.holds msg.jobId workerId msg.token with
  | false =>
    rw [onResultTx_stale held]
    exact does_sql rfl (Sql.deleteLeases_misses (named_lease.mpr held)) (does_done _ _)
  | true =>
    have found : v.leases.count (fun l =>
        l.jobId = msg.jobId && l.workerId = workerId && l.token = msg.token) ≠ 0 := by
      simp [named_lease, held]
    have deleted : Sql.Does (Sql.deleteLeases fun l =>
        l.jobId = msg.jobId && l.workerId = workerId && l.token = msg.token) v _
        (resultDelete workerId msg v) := Sql.deleteLeases_does _ v
    refine does_sql rfl deleted ?_
    rw [if_neg (Sql.deleteLeases_hits found)]
    by_cases running : v.statusOf msg.jobId = some .dispatched
    · have hit : (resultDelete workerId msg v).jobs.count (fun r =>
          r.jobId = msg.jobId && r.status = .dispatched) ≠ 0 := by
        have same : (resultDelete workerId msg v).statusOf msg.jobId = some .dispatched := running
        simp [dispatched_count, same]
      rw [onResultTx_accepted held running]
      refine does_sql rfl (Sql.updateJobs_does _ _ _) ?_
      rw [if_neg (Sql.updateJobs_hits hit _)]
      refine does_sql rfl (Sql.insert_does _ _) ?_
      obtain ⟨affected, terminated⟩ := Sql.terminateHistory_does (· = msg.jobId) ctx.laterMs _
      exact does_sql rfl terminated (does_sql rfl (Sql.insert_does _ _) (does_done _ _))
    · rw [onResultTx_discarded held running]
      have missed : (resultDelete workerId msg v).jobs.count (fun r =>
          r.jobId = msg.jobId && r.status = .dispatched) = 0 := dispatched_count.mpr running
      exact does_sql rfl (Sql.updateJobs_misses missed _) (does_done _ _)

theorem failed_does (v : Db) (e : Env) (ctx : Ctx) (msg : JobFailed) :
    (failedLease ctx msg).Does v e (some (onFailedTx ctx msg v)) e := by
  refine does_sql rfl (Sql.deleteLeases_does _ v) (does_sql rfl (Sql.updateJobs_does _ _ _) ?_)
  obtain ⟨affected, terminated⟩ := Sql.terminateHistory_does (· = msg.jobId) ctx.laterMs _
  refine does_sql rfl terminated ?_
  simp only [onFailedTx]
  cases msg.temporary with
  | true => exact does_done _ _
  | false => exact does_sql rfl (Sql.insert_does _ _) (does_done _ _)

theorem heartbeat_does (v : Db) (e : Env) (workerId : WorkerId) (msg : JobHeartbeat)
    (newExpiry : Int) : (heartbeatLease workerId msg newExpiry).Does v e
      (some (onHeartbeatUpdate workerId msg newExpiry v)) e :=
  does_sql rfl (Sql.updateLeases_does _ _ _) (does_done _ _)

/-- The ids that the reaper's statements go on with are those it has selected. -/
theorem selected_ids (now : Int) (lockJobs : Bool) (unlocked : ∀ j, ctx.locked j = false) (v : Db) :
    ((Sql.selectExpired now lockJobs).scan v).filterMap Row.leased = reapedIds ctx now v := by
  simp only [Sql.selectExpired, reapedIds, expiredLeases, unlocked, Bool.not_false, Bool.and_true,
    List.filterMap_map]
  exact congrFun (List.filterMap_eq_map (f := Lease.jobId)) _

theorem view_logs (f : JobId → JobTransition) (ids : List JobId) (v : Db) :
    sqlMachine.view v (ids.map fun j => .insertTransition (f j)) =
      v.insertJobTransitions (ids.map f) := by
  induction ids generalizing v with
  | nil => simp [Db.insertJobTransitions]
  | cons j rest ih => simp [ih, Write.apply, Db.insertJobTransitions]

theorem reaper_does (v : Db) (e : Env) (now : Int) (lockJobs : Bool)
    (unlocked : ∀ j, ctx.locked j = false) :
    (reaperSelect ctx now lockJobs).Does v e (some (reaperTx ctx now v)) e := by
  refine does_sql rfl (Sql.selectExpired_does now lockJobs v) ?_
  have ids := selected_ids now lockJobs unlocked v
  have empty : ((Sql.selectExpired now lockJobs).scan v).isEmpty = (reapedIds ctx now v).isEmpty := by
    simp only [Sql.selectExpired, reapedIds, expiredLeases, unlocked, Bool.not_false, Bool.and_true,
      List.isEmpty_map]
  rw [empty, ids, reaperTx_eq]
  split
  · exact does_done _ _
  refine does_sql rfl (Sql.deleteLeases_does _ v) (does_sql rfl (Sql.updateJobs_does _ _ _) ?_)
  obtain ⟨affected, terminated⟩ := Sql.terminateHistory_does
    (fun j => (reapedIds ctx now v).contains j) ctx.laterMs _
  have inserted := Sql.insert_does ((reapedIds ctx now v).map fun j =>
    .insertTransition (JobEvent.log ctx j (some .dispatched) .pending))
  simp only [view_logs] at inserted
  exact does_sql rfl terminated (does_sql rfl (inserted _) (does_done _ _))

theorem result_under (v : Db) (e : Env) (ctx : Ctx) (workerId : WorkerId) (msg : JobResult) :
    (onResultTx ctx workerId msg v).2.under e = (onResultTx ctx workerId msg (v.under e)).2 := by
  cases held : v.holds msg.jobId workerId msg.token with
  | false =>
    have still : (v.under e).holds msg.jobId workerId msg.token = false := held
    rw [onResultTx_stale held, onResultTx_stale still]
  | true =>
    have still : (v.under e).holds msg.jobId workerId msg.token = true := held
    by_cases running : v.statusOf msg.jobId = some .dispatched
    · have runs : (v.under e).statusOf msg.jobId = some .dispatched := running
      rw [onResultTx_accepted held running, onResultTx_accepted still runs]
      rfl
    · have idle : (v.under e).statusOf msg.jobId ≠ some .dispatched := running
      rw [onResultTx_discarded held running, onResultTx_discarded still idle]
      rfl

theorem failed_under (v : Db) (e : Env) (ctx : Ctx) (msg : JobFailed) :
    (onFailedTx ctx msg v).under e = onFailedTx ctx msg (v.under e) := by
  simp only [onFailedTx]
  split <;> rfl

theorem reaper_under (v : Db) (e : Env) (ctx : Ctx) (now : Int) :
    (reaperTx ctx now v).under e = reaperTx ctx now (v.under e) := by
  have same : reapedIds ctx now (v.under e) = reapedIds ctx now v := rfl
  simp only [reaperTx_eq, same]
  split <;> rfl

/-- A body that finds the tables and the sequence as the statements find them ends with
what the statements end with. -/
theorem body_does {p : Prog} (h : p.body (v.under e) = some db')
    (undisturbed : p.Undisturbed e.clockUs) :
    ∃ v' e', p.Does v e v' e' ∧ (v'.getD v).under e' = db' ∧ e'.clockUs = e.clockUs := by
  cases p with
  | submitJob ctx key payload =>
    simp only [body] at h
    split at h <;> cases h
    next submitted =>
      obtain ⟨v', does, same⟩ := submit_does submitted
      exact ⟨some v', e, does, same, rfl⟩
    next thrown => exact ⟨none, e, submit_throws thrown, rfl, rfl⟩
  | cancelJob ctx j =>
    cases h
    exact ⟨_, _, cancel_does v e ctx j, rfl, rfl⟩
  | dispatchSelect ctx workerId clockFirst =>
    simp only [body] at h
    split at h <;> cases h
    next dispatched =>
      obtain ⟨v', e', does, rest⟩ := dispatch_does clockFirst undisturbed.1 undisturbed.2 dispatched
      exact ⟨some v', e', does, rest⟩
    next thrown => exact ⟨none, _, dispatch_throws clockFirst undisturbed.2 thrown, rfl, rfl⟩
  | resultLease ctx workerId msg =>
    cases h
    exact ⟨_, _, result_does v e ctx workerId msg, result_under v e ctx workerId msg, rfl⟩
  | failedLease ctx msg =>
    cases h
    exact ⟨_, _, failed_does v e ctx msg, failed_under v e ctx msg, rfl⟩
  | heartbeatLease workerId msg newExpiry =>
    cases h
    exact ⟨_, _, heartbeat_does v e workerId msg newExpiry, rfl, rfl⟩
  | reaperSelect ctx now lockJobs =>
    cases h
    exact ⟨_, _, reaper_does v e now lockJobs undisturbed, reaper_under v e ctx now, rfl⟩
  | _ => cases h

end Prog

def committed (s : SqlStore) : Db := s.db.under s.env

/-- Each body is a run of its statements, from every store where no transaction is open. -/
theorem body_run {s : SqlStore} {p : Prog} {db' : Db} (idle : s.Idle)
    (undisturbed : p.Undisturbed s.env.clockUs) (h : p.body (committed s) = some db') :
    ∃ s', Reachable sqlMachine.step s s' ∧ s'.Idle ∧ committed s' = db' ∧
      s'.env.clockUs = s.env.clockUs := by
  obtain ⟨v', e', ⟨out, alone, rfl⟩, rfl, clock⟩ := Prog.body_does h undisturbed
  have entry : sqlMachine.entry p = true := by
    cases p with
    | submitJob | cancelJob | dispatchSelect | resultLease | failedLease | heartbeatLease
    | reaperSelect => rfl
    | _ => cases h
  obtain ⟨s', reach, idle', db', env'⟩ := alone.run entry idle
  refine ⟨s', reach, idle', ?_, by rw [env', clock]⟩
  rw [committed, db', env']
  cases out <;> rfl

/-- The transactions one after another, each as one function, with Postgres' clock at each. -/
def serial : Step (Db × Int) (Prog × Int) := fun s a =>
  if s.2 ≤ a.2 then (a.1.body s.1).map fun db => (db, a.2) else none

/-- The clock goes on while no transaction is open. -/
theorem pass_run {s : SqlStore} {clockUs : Int} (idle : s.Idle) (later : s.env.clockUs ≤ clockUs) :
    ∃ s', Reachable sqlMachine.step s s' ∧ s'.Idle ∧ committed s' = committed s ∧
      s'.env.clockUs = clockUs := by
  have le : s.env ≤ ⟨s.env.fencingSeq, clockUs⟩ := ⟨Nat.le_refl _, later⟩
  have go : sqlMachine.step s (.pass ⟨s.env.fencingSeq, clockUs⟩) =
      some { s with env := ⟨s.env.fencingSeq, clockUs⟩ } := by
    simp [Machine.step, le]
  exact ⟨_, Reachable.refl.snoc go, ⟨idle.closed, idle.unlocked⟩, rfl, rfl⟩

/-- A run of the statements ends with this database and no transaction open. -/
def Attained (clockUs : Int) (t : Db × Int) : Prop :=
  ∃ s, Reachable sqlMachine.step (migratedStore clockUs) s ∧ s.Idle ∧ committed s = t.1 ∧
    s.env.clockUs = t.2

/-- The statements run one more transaction from where they have got to. -/
theorem serial_step {clockUs : Int} {t t' : Db × Int} {a : Prog × Int} (reached : Attained clockUs t)
    (step : serial t a = some t') (undisturbed : a.1.Undisturbed a.2) : Attained clockUs t' := by
  obtain ⟨s, reach, idle, db, clock⟩ := reached
  simp only [serial, Option.ite_none_right_eq_some, Option.map_eq_some_iff] at step
  obtain ⟨later, db', body, rfl⟩ := step
  obtain ⟨s₁, passes, idle₁, db₁, clock₁⟩ := pass_run idle (clock ▸ later)
  have found : a.1.body (committed s₁) = some db' := by rw [db₁, db, body]
  have still : a.1.Undisturbed s₁.env.clockUs := by
    rw [clock₁]
    exact undisturbed
  obtain ⟨s₂, runs, idle₂, db₂, clock₂⟩ := body_run idle₁ still found
  exact ⟨s₂, (reach.trans passes).trans runs, idle₂, db₂, clock₂.trans clock₁⟩

/-- What the bodies do one after another, those that throw among them, the statements
can do: taking each transaction for one step adds no behaviour of its own. -/
theorem serial_run {clockUs : Int} {es : List (Event (Db × Int) (Prog × Int))} {t : Db × Int}
    (h : Run serial (.migrated, clockUs) es t)
    (undisturbed : ∀ e ∈ es, e.action.1.Undisturbed e.action.2) : Attained clockUs t := by
  have initial : Attained clockUs (.migrated, clockUs) :=
    ⟨migratedStore clockUs, .refl, ⟨fun _ => rfl, fun _ => rfl⟩, rfl, rfl⟩
  exact h.guarded undisturbed initial fun _ _ _ => serial_step

/-- The second submission meets the key of the first one. -/
def serialJob : List (Prog × Int) :=
  [(.submitJob (.quiet "c1" 1) "k" (.obj []), 1000), (.submitJob (.quiet "c2" 2) "k" (.obj []), 1000),
    (.dispatchSelect (.quiet "c1" 2) "w1" false, 2000),
    (.resultLease (.quiet "c2" 3) "w1" ⟨1, 1, .obj []⟩, 3000)]

theorem serial_run_serialJob : ∃ t, exec serial (.migrated, 0) serialJob = some t ∧
    t.1.jobs.rows.map Job.status = [.succeeded] ∧ Attained 0 t := by
  obtain ⟨t, ht, hp⟩ : ∃ t, exec serial (.migrated, 0) serialJob = some t ∧
      decide (t.1.jobs.rows.map Job.status = [.succeeded]) = true := exec_any (by decide)
  refine ⟨t, ht, of_decide_eq_true hp, serial_run (run_of_exec serialJob ht) ?_⟩
  intro e he
  have listed := trace_action_mem serialJob ht e he
  simp only [serialJob, List.mem_cons, List.not_mem_nil, or_false] at listed
  rcases listed with h | h | h | h <;> rw [h]
  · trivial
  · trivial
  · exact ⟨rfl, fun _ => rfl⟩
  · trivial

end Dispatcher
