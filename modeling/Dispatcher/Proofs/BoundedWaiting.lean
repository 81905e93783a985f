import Dispatcher.Cluster.Messages

namespace Dispatcher
open Tables Runs

/-- The other jobs that wait and were created no later than `createdAt`. -/
def Db.ahead (db : Db) (j : JobId) (createdAt : Int) : List Job :=
  db.jobs.rows.filter fun r => r.status = .pending && r.createdAt ≤ createdAt && r.jobId ≠ j

def arrivals (j : JobId) (createdAt : Int) (e : Event Cluster Action) : List Job :=
  (e.after.db.ahead j createdAt).filter fun r =>
    r.jobId ∉ (e.before.db.ahead j createdAt).map Job.jobId

def dispatching (e : Event Cluster Action) : Bool :=
  match e.before.resumed e.action with
  | some (_, .dispatchTx _) => true
  | _ => false

/-- The SELECT of a dispatch does not find the row of `j` locked. -/
def Unlocked (j : JobId) (e : Event Cluster Action) : Prop :=
  ∀ ctx workerId, e.before.resumed e.action = some (ctx, .dispatchTx workerId) → ctx.locked j = false

/-- A job is put ahead by its submission, or by a lease that it loses. -/
def JobEvent.enters : JobEvent → Bool
  | .submitted .. | .requeued _ | .reaped _ => true
  | _ => false

/-- While `j` waits, what goes before it: each dispatch takes a job that is no
younger, and there are no more of them than jobs that were ahead or came ahead. -/
structure WaitBounded (es : List (Event Cluster Action)) (s : Cluster) (j : JobId)
    (createdAt : Int) : Prop where
  fifo : ∀ e ∈ es, dispatching e = true → ∃ r ∈ e.before.db.ahead j createdAt, ∃ ctx workerId token,
    e.before.event e.action r.jobId = some (.dispatched ctx workerId token)
  bounded : (es.filter dispatching).length ≤
    (s.db.ahead j createdAt).length + (es.flatMap (arrivals j createdAt)).length
  entered : ∀ e ∈ es, ∀ r ∈ arrivals j createdAt e, ∃ ev,
    e.before.event e.action r.jobId = some ev ∧ ev.enters = true

theorem mem_ahead {db : Db} {j : JobId} {createdAt : Int} {r : Job} : r ∈ db.ahead j createdAt ↔
    db.jobs.lookup r.jobId = some r ∧ r.status = .pending ∧ r.createdAt ≤ createdAt ∧
      r.jobId ≠ j := by
  simp only [Db.ahead, List.mem_filter, Bool.and_eq_true, decide_eq_true_eq, and_assoc]
  constructor
  · rintro ⟨hm, rest⟩
    exact ⟨Table.lookup_of_mem hm, rest⟩
  · rintro ⟨hl, rest⟩
    exact ⟨Table.lookup_mem hl, rest⟩

theorem ahead_nodup (db : Db) (j : JobId) (createdAt : Int) :
    ((db.ahead j createdAt).map Job.jobId).Nodup :=
  db.jobs.unique.sublist (List.filter_sublist.map _)

/-- A row keeps the time it was created at. -/
theorem apply_createdAt {v : JobView} {n : Nat} {j : JobId} {e : JobEvent} (he : e.Enabled n v)
    (present : v.job.isSome) :
    (e.apply j v).job.map Job.createdAt = v.job.map Job.createdAt := by
  have patched : ∀ patch : Db.JobPatch,
      (v.patchDispatched patch).map Job.createdAt = v.job.map Job.createdAt := by
    intro patch
    simp only [JobView.patchDispatched, Option.map_map]
    congr 1
    funext r
    simp only [Function.comp_apply]
    split <;> rfl
  cases e with
  | submitted ctx key payload =>
    have absent : v.job = none := he
    rw [absent] at present
    cases present
  | dispatched | cancelled =>
    simp only [JobEvent.apply, Option.map_map]
    rfl
  | accepted | requeued | failed | reaped => exact patched _
  | discarded | extended => rfl

/-- Only three events leave a job PENDING that was not. -/
theorem pending_entered {v : JobView} {n : Nat} {j : JobId} {e : JobEvent} (he : e.Enabled n v)
    (after : (e.apply j v).status = some .pending) : v.status = some .pending ∨ e.enters = true := by
  have patched : ∀ status at_, status ≠ .pending →
      (v.patchDispatched ⟨status, none, at_⟩).map Job.status = some .pending →
      v.status = some .pending := by
    intro status at_ other h
    unfold JobView.patchDispatched at h
    unfold JobView.status
    cases hj : v.job with
    | none => simp [hj] at h
    | some r =>
      simp only [hj, Option.map_some, Option.some.injEq] at h ⊢
      split at h
      · exact absurd h other
      · exact h
  cases e with
  | submitted | requeued | reaped => exact .inr rfl
  | failed => exact .inl (patched _ _ (by decide) after)
  | discarded | extended => exact .inl after
  | accepted ctx w t r =>
    obtain ⟨dispatched, _⟩ := he
    obtain ⟨row, hj, hs⟩ := Option.map_eq_some_iff.mp dispatched
    simp [JobEvent.apply, JobView.status, JobView.patchDispatched, hj, hs, Db.JobPatch.on] at after
  | dispatched | cancelled =>
    simp only [JobEvent.apply, JobView.status] at after
    cases hj : v.job <;> simp [hj, Db.JobPatch.on] at after

namespace Cluster

variable {s s' : Cluster} {a : Action} {j : JobId} {createdAt : Int}

/-- A job comes ahead of another one only by an event that enters the queue. -/
theorem arrival_event (h : step s a = some s') {r : Job}
    (hr : r ∈ arrivals j createdAt ⟨s, a, s'⟩) :
    ∃ ev, s.event a r.jobId = some ev ∧ ev.enters = true := by
  obtain ⟨after, before⟩ := List.mem_filter.mp hr
  obtain ⟨row, pending, older, other⟩ := mem_ahead.mp after
  have view := step_view h r.jobId
  have status : (s'.db.view r.jobId).status = some .pending := by
    simp [JobView.status, Db.view, row, pending]
  rw [view] at status
  cases he : s.event a r.jobId with
  | none =>
    rw [he] at view
    have same : s.db.jobs.lookup r.jobId = some r := (congrArg JobView.job view).symm.trans row
    have mem := mem_ahead.mpr ⟨same, pending, older, other⟩
    exact absurd (List.mem_map_of_mem mem) (of_decide_eq_true before)
  | some ev =>
    rw [he] at status view
    refine ⟨ev, rfl, ?_⟩
    rcases pending_entered (step_enabled he) status with waiting | enters
    · obtain ⟨q, hq, hs⟩ := Option.map_eq_some_iff.mp waiting
      have key : q.jobId = r.jobId := Table.lookup_key hq
      have created := apply_createdAt (j := r.jobId) (step_enabled he) (by simp [hq])
      have job : (ev.apply r.jobId (s.db.view r.jobId)).job = some r :=
        (congrArg JobView.job view).symm.trans row
      simp only [job, hq, Option.map_some, Option.some.injEq] at created
      have mem : q ∈ s.db.ahead j createdAt :=
        mem_ahead.mpr ⟨key ▸ hq, hs, created ▸ older, key ▸ other⟩
      exact absurd (List.mem_map.mpr ⟨q, mem, key⟩) (of_decide_eq_true before)
    · exact enters

/-- With `j` waiting and not locked, a dispatch takes a job that is ahead of it. -/
theorem dispatch_ahead (known : Reachable step init s) (h : step s a = some s')
    (dispatches : dispatching ⟨s, a, s'⟩ = true) (unlocked : Unlocked j ⟨s, a, s'⟩) {row : Job}
    (found : s.db.jobs.lookup j = some row) (waits : row.status = .pending)
    (after : s'.db.statusOf j = some .pending) :
    ∃ r ∈ s.db.ahead j row.createdAt, ∃ ctx workerId token,
      s.event a r.jobId = some (.dispatched ctx workerId token) := by
  unfold dispatching at dispatches
  split at dispatches
  next ctx workerId hr =>
    have free : ctx.locked j = false := unlocked ctx workerId hr
    have queued : row ∈ s.db.jobs.rows.filter fun r => r.status = .pending && !ctx.locked r.jobId := by
      refine List.mem_filter.mpr ⟨Table.lookup_mem found, ?_⟩
      simp [waits, Table.lookup_key found, free]
    cases hq : headOfQueue ctx s.db with
    | none => simp [oldest_none hq] at queued
    | some r =>
      obtain ⟨present, pending, _⟩ := headOfQueue_spec hq
      have older : r.createdAt ≤ row.createdAt := oldest_le hq row queued
      have unleased : s.db.leases.lookup r.jobId = none :=
        ((consistent_reachable known r.jobId).pending
          (by simp [JobView.status, Db.view, present, pending])).1
      have event : s.event a r.jobId = some (.dispatched ctx workerId (s.db.fencingSeq + 1)) := by
        simp [Cluster.event, show s.resumed a = _ from hr, Task.event, dispatchedJob, hq, unleased]
      refine ⟨r, mem_ahead.mpr ⟨present, pending, older, ?_⟩, ctx, workerId, _, event⟩
      rintro rfl
      have view := congrArg JobView.status (step_view h r.jobId)
      rw [event] at view
      have status : (s'.db.view r.jobId).status = some .pending := after
      rw [view] at status
      have job : (s.db.view r.jobId).job = some r := present
      simp [JobView.after, JobEvent.apply, JobView.status, job, Db.JobPatch.on] at status
  next => cases dispatches

/-- What is ahead after a step was ahead before, but for the arrivals. -/
theorem ahead_split (j : JobId) (createdAt : Int) (e : Event Cluster Action) :
    (e.after.db.ahead j createdAt).length = (arrivals j createdAt e).length +
      ((e.after.db.ahead j createdAt).filter fun r =>
        r.jobId ∈ (e.before.db.ahead j createdAt).map Job.jobId).length := by
  have split := List.length_eq_length_filter_add (l := e.after.db.ahead j createdAt)
    fun r => decide (r.jobId ∉ (e.before.db.ahead j createdAt).map Job.jobId)
  simp only [decide_not, Bool.not_not] at split
  simpa only [arrivals, decide_not] using split

/-- Of the jobs ahead after a step, no more were ahead before than there were. -/
theorem kept_ahead (j : JobId) (createdAt : Int) (e : Event Cluster Action) :
    ((e.after.db.ahead j createdAt).filter fun r =>
      r.jobId ∈ (e.before.db.ahead j createdAt).map Job.jobId).length ≤
        (e.before.db.ahead j createdAt).length := by
  have distinct := (ahead_nodup e.after.db j createdAt).sublist
    ((List.filter_sublist (p := fun r => decide
      (r.jobId ∈ (e.before.db.ahead j createdAt).map Job.jobId))).map Job.jobId)
  have before : ∀ id ∈ ((e.after.db.ahead j createdAt).filter fun r =>
      r.jobId ∈ (e.before.db.ahead j createdAt).map Job.jobId).map Job.jobId,
      id ∈ (e.before.db.ahead j createdAt).map Job.jobId := by
    intro id hid
    obtain ⟨r, hr, rfl⟩ := List.mem_map.mp hid
    exact of_decide_eq_true (List.mem_filter.mp hr).2
  simpa using (List.subperm_of_subset distinct before).length_le

/-- A dispatch takes one job from those ahead. -/
theorem taken_ahead (h : step s a = some s') {r : Job} (hr : r ∈ s.db.ahead j createdAt)
    {ctx : Ctx} {workerId : WorkerId} {token : Token}
    (he : s.event a r.jobId = some (.dispatched ctx workerId token)) :
    ((s'.db.ahead j createdAt).filter fun q =>
      q.jobId ∈ (s.db.ahead j createdAt).map Job.jobId).length + 1 ≤
        (s.db.ahead j createdAt).length := by
  have gone : r.jobId ∉ (s'.db.ahead j createdAt).map Job.jobId := by
    intro still
    obtain ⟨q, hq, same⟩ := List.mem_map.mp still
    obtain ⟨row, pending, _⟩ := mem_ahead.mp hq
    have view := congrArg JobView.status (step_view h r.jobId)
    have job : (s.db.view r.jobId).job = some r := (mem_ahead.mp hr).1
    have after : (s'.db.view r.jobId).status = some .pending := by
      simp [JobView.status, Db.view, ← same, row, pending]
    rw [view, he] at after
    simp [JobView.after, JobEvent.apply, JobView.status, job, Db.JobPatch.on] at after
  have distinct := (ahead_nodup s'.db j createdAt).sublist
    ((List.filter_sublist (p := fun q => decide
      (q.jobId ∈ (s.db.ahead j createdAt).map Job.jobId))).map Job.jobId)
  have more : (r.jobId :: ((s'.db.ahead j createdAt).filter fun q =>
      q.jobId ∈ (s.db.ahead j createdAt).map Job.jobId).map Job.jobId).Nodup :=
    List.nodup_cons.mpr ⟨fun still => gone (List.map_subset _ List.filter_sublist.subset still),
      distinct⟩
  have before : ∀ id ∈ r.jobId :: ((s'.db.ahead j createdAt).filter fun q =>
      q.jobId ∈ (s.db.ahead j createdAt).map Job.jobId).map Job.jobId,
      id ∈ (s.db.ahead j createdAt).map Job.jobId := by
    intro id hid
    rcases List.mem_cons.mp hid with rfl | hid
    · exact List.mem_map_of_mem hr
    · obtain ⟨q, hq, rfl⟩ := List.mem_map.mp hid
      exact of_decide_eq_true (List.mem_filter.mp hq).2
  simpa using (List.subperm_of_subset more before).length_le

/-- A waiting job keeps its place. -/
theorem waiting_row (h : step s a = some s') {row : Job} (found : s.db.jobs.lookup j = some row) :
    ∃ row', s'.db.jobs.lookup j = some row' ∧ row'.createdAt = row.createdAt := by
  have view := congrArg JobView.job (step_view h j)
  have job : (s.db.view j).job = some row := found
  cases he : s.event a j with
  | none =>
    rw [he] at view
    exact ⟨row, view.trans job, rfl⟩
  | some e =>
    rw [he] at view
    have created := apply_createdAt (j := j) (step_enabled he) (by simp [job])
    rw [job, Option.map_some] at created
    obtain ⟨row', hr, same⟩ := Option.map_eq_some_iff.mp created
    exact ⟨row', view.trans hr, same⟩

/-- What a job that waits is owed, kept by every step. -/
structure Waits (s : Cluster) (j : JobId) (createdAt : Int) : Prop where
  known : Reachable step init s
  place : ∃ row, s.db.jobs.lookup j = some row ∧ row.createdAt = createdAt

theorem waits_step (hw : s.Waits j createdAt) (h : step s a = some s') : s'.Waits j createdAt := by
  obtain ⟨row, found, rfl⟩ := hw.place
  exact ⟨hw.known.snoc h, waiting_row h found⟩

theorem run_waits {es : List (Event Cluster Action)} (run : Run step s es s')
    (hw : s.Waits j createdAt) : ∀ e ∈ es, e.before.Waits j createdAt :=
  fun e he => by
    obtain ⟨pre, before, _⟩ := run.prefix_of_event he
    have reached : Reachable step s e.before := ⟨pre, before⟩
    exact reached.invariant hw fun _ _ _ h hs => waits_step h hs

/-- A job that stays in the queue is overtaken by none that was created later, and only as
often as there are older ones that waited or came to wait. A dispatch that fails takes no
job, and counts for nothing here. -/
theorem bounded_waiting {es : List (Event Cluster Action)} {row : Job}
    (known : Reachable step init s) (run : Run step s es s')
    (found : s.db.jobs.lookup j = some row) (waits : row.status = .pending)
    (after : ∀ e ∈ es, e.after.db.statusOf j = some .pending) (unlocked : ∀ e ∈ es, Unlocked j e) :
    WaitBounded es s j row.createdAt := by
  have start : s.db.statusOf j = some .pending := by simp [Db.statusOf, found, waits]
  have before : ∀ e ∈ es, e.before.db.statusOf j = some .pending :=
    run.before_of_after (P := fun u => u.db.statusOf j = some .pending) start after
  have owed := run_waits run ⟨known, row, found, rfl⟩
  have fifo : ∀ e ∈ es, dispatching e = true → ∃ r ∈ e.before.db.ahead j row.createdAt,
      ∃ ctx workerId token, e.before.event e.action r.jobId = some (.dispatched ctx workerId token) := by
    intro e he dispatches
    obtain ⟨here, q, hq, created⟩ := owed e he
    have pending : q.status = .pending := by
      have status := before e he
      simpa [Db.statusOf, hq] using status
    rw [← created]
    exact dispatch_ahead here (run.event he).2 dispatches (unlocked e he) hq pending (after e he)
  refine ⟨fifo, ?_, fun e he r hr => arrival_event (run.event he).2 hr⟩
  have paid : ∀ e ∈ es, (e.after.db.ahead j row.createdAt).length + (dispatching e).toNat ≤
      (e.before.db.ahead j row.createdAt).length + (arrivals j row.createdAt e).length := by
    intro e he
    have split := ahead_split j row.createdAt e
    cases dispatches : dispatching e with
    | false =>
      have kept := kept_ahead j row.createdAt e
      simp only [Bool.toNat_false]
      omega
    | true =>
      obtain ⟨r, hr, ctx, workerId, token, event⟩ := fifo e he dispatches
      have taken := taken_ahead (run.event he).2 hr event
      simp only [Bool.toNat_true]
      omega
  have total := Run.potential (fun u => (u.db.ahead j row.createdAt).length) run paid
  omega

def unlockedCheck (j : JobId) : Action → Bool
  | .resume _ ctx => !ctx.locked j
  | _ => true

theorem unlocked_of_check {e : Event Cluster Action} (h : unlockedCheck j e.action = true) :
    Unlocked j e := by
  intro ctx workerId hr
  cases ha : e.action with
  | resume i ctx' =>
    rw [ha] at h hr
    obtain ⟨p, _, same⟩ := Option.map_eq_some_iff.mp hr
    have locked : ctx.locked = ctx'.locked := congrArg (fun q => q.1.locked) same.symm
    rw [locked]
    simpa [unlockedCheck] using h
  | _ =>
    rw [ha] at hr
    cases hr

def queueRun : List Action :=
  [.post "c1" (some (.str "k")) (some (.obj [])), .resume 0 (.quiet "c1" 1), .resume 0 (.quiet "c1" 1),
    .post "c1" (some (.str "l")) (some (.obj [])), .resume 0 (.quiet "c1" 2), .resume 0 (.quiet "c1" 2)]

/-- The first is dispatched, fails for now, and is dispatched again. -/
def overtakingRun : List Action :=
  [.dispatchTick "c1" "w1", .resume 0 (.quiet "c1" 3), .workerSend 1 (.jobFailed ⟨1, 1, "full", true⟩),
    .receive "c1" 0 (.quiet "c1" 4), .resume 1 (.quiet "c1" 4), .dispatchTick "c1" "w1",
    .resume 1 (.quiet "c1" 5)]

theorem bounded_waiting_overtakingRun : ∃ s s' row, exec step init queueRun = some s ∧
    exec step s overtakingRun = some s' ∧ s.db.jobs.lookup 2 = some row ∧
    ((trace step s overtakingRun).filter dispatching).length = 2 ∧
    WaitBounded (trace step s overtakingRun) s 2 row.createdAt := by
  obtain ⟨s, hs, hp⟩ : ∃ s, exec step init queueRun = some s ∧
      ((s.db.jobs.lookup 2).any (fun row => row.status = .pending) &&
        (exec step s overtakingRun).isSome &&
        (trace step s overtakingRun).all (fun e =>
          decide (e.after.db.statusOf 2 = some .pending) && unlockedCheck 2 e.action) &&
        decide (((trace step s overtakingRun).filter dispatching).length = 2)) = true :=
    exec_any (by decide)
  simp only [Bool.and_eq_true, List.all_eq_true, decide_eq_true_eq, Option.any_eq_true] at hp
  obtain ⟨⟨⟨⟨row, found, waits⟩, ends⟩, checks⟩, twice⟩ := hp
  obtain ⟨s', hs'⟩ := Option.isSome_iff_exists.mp ends
  refine ⟨s, s', row, hs, hs', found, twice, ?_⟩
  exact bounded_waiting (reachable_of_exec queueRun hs) (run_of_exec overtakingRun hs') found waits
    (fun e he => (checks e he).1) fun e he => unlocked_of_check (checks e he).2

end Cluster

end Dispatcher
