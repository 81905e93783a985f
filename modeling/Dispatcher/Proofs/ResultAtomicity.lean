import Dispatcher.Proofs.HistoryMirror

namespace Dispatcher
open Tables Runs

/-- The five writes of an accepted result, and no other. -/
structure ResultCommitted (ctx : Ctx) (workerId : WorkerId) (msg : JobResult) (db db' : Db) : Prop where
  held : db.holds msg.jobId workerId msg.token = true
  lease : ∀ j, db'.leases.lookup j = if j = msg.jobId then none else db.leases.lookup j
  job : ∃ r, db.jobs.lookup msg.jobId = some r ∧ r.status = .dispatched ∧
    ∀ j, db'.jobs.lookup j = if j = msg.jobId then
      some { r with status := .succeeded, result := some msg.result, updatedAt := ctx.nowMs }
      else db.jobs.lookup j
  attempt : db'.commitAttempts =
    db.commitAttempts ++ [⟨msg.jobId, true, msg.token, workerId, ctx.laterMs⟩]
  history : db'.leaseHistory = db.leaseHistory.map fun h =>
    if h.jobId = msg.jobId ∧ h.terminatedAtMs = none then { h with terminatedAtMs := some ctx.laterMs }
    else h
  transition : db'.jobTransitions = db.jobTransitions ++
    [⟨msg.jobId, some .dispatched, .succeeded, ctx.laterMs, ctx.coordinatorId⟩]
  sequence : db'.fencingSeq = db.fencingSeq

/-- The steps of `onResult` after its first await. -/
def Task.ofResult : Task → Bool
  | .resultLookup .. | .resultTx .. | .resultReAck .. => true
  | _ => false

def Task.accepts (ctx : Ctx) (db : Db) : Task → Bool
  | .resultTx _ workerId msg => (onResultTx ctx workerId msg db).1
  | _ => false

/-- A step of an `onResult`, if the event is one, accepts the result with all its
writes, or changes nothing. -/
structure AllOrNothing (e : Event Cluster Action) : Prop where
  runs : ∀ ctx t, e.before.resumed e.action = some (ctx, t) → t.ofResult = true →
    (t.accepts ctx e.before.db = true ∧ ∃ ws workerId msg, t = .resultTx ws workerId msg ∧
      ResultCommitted ctx workerId msg e.before.db e.after.db) ∨
    (t.accepts ctx e.before.db = false ∧ e.after.db = e.before.db)
  fails : ∀ i error c t, e.action = .fail i error → e.before.tasks[i]? = some (c, t) →
    t.ofResult = true → e.after.db = e.before.db

theorem lookup_resultDelete {workerId : WorkerId} {msg : JobResult} {db : Db}
    (held : db.holds msg.jobId workerId msg.token = true) (j : JobId) :
    (resultDelete workerId msg db).leases.lookup j =
      if j = msg.jobId then none else db.leases.lookup j := by
  have view : (resultDelete workerId msg db).leases.lookup j = _ :=
    congrArg JobView.lease (resultDelete_view held j)
  rw [view]
  split <;> rfl

/-- A result that finds its lease and its job DISPATCHED makes all five writes. -/
theorem onResultTx_committed {ctx : Ctx} {workerId : WorkerId} {msg : JobResult} {db : Db}
    (held : db.holds msg.jobId workerId msg.token = true)
    (running : db.statusOf msg.jobId = some .dispatched) :
    ResultCommitted ctx workerId msg db (onResultTx ctx workerId msg db).2 := by
  rw [onResultTx_accepted held running]
  obtain ⟨r, hr, status⟩ := Option.map_eq_some_iff.mp running
  constructor
  case held => exact held
  case lease => exact lookup_resultDelete held
  case job =>
    refine ⟨r, hr, status, fun j => ?_⟩
    have updated := Table.lookup_update db.jobs
      (fun r => r.jobId = msg.jobId && r.status = .dispatched)
      (Db.JobPatch.on ⟨.succeeded, some msg.result, ctx.nowMs⟩) (fun _ => rfl) j
    refine Eq.trans updated ?_
    by_cases same : j = msg.jobId
    · subst same
      simp [hr, Table.lookup_key hr, status, Db.JobPatch.on]
    · cases hj : db.jobs.lookup j with
      | none => simp [same]
      | some q => simp [same, Table.lookup_key hj]
  case history =>
    refine List.map_congr_left fun h _ => ?_
    simp [LeaseHistory.terminate]
  all_goals rfl

/-- A transaction that does not accept rolls nothing back. -/
theorem onResultTx_unchanged_iff {ctx : Ctx} {workerId : WorkerId} {msg : JobResult} {db : Db}
    (rejected : (onResultTx ctx workerId msg db).1 = false) :
    (onResultTx ctx workerId msg db).2 = db ↔ db.holds msg.jobId workerId msg.token = false := by
  refine ⟨fun same => ?_, fun none => by rw [onResultTx_stale none]⟩
  by_contra held
  rw [Bool.not_eq_false] at held
  by_cases running : db.statusOf msg.jobId = some .dispatched
  · rw [onResultTx_accepted held running] at rejected
    cases rejected
  · rw [onResultTx_discarded held running] at same
    have gone := lookup_resultDelete held msg.jobId
    have same : resultDelete workerId msg db = db := same
    rw [same, if_pos rfl] at gone
    simp [Db.holds, gone] at held

namespace Cluster

variable {s s' : Cluster} {a : Action}

theorem resumed_db {ctx : Ctx} {t : Task} (h : step s a = some s')
    (resumed : s.resumed a = some (ctx, t)) : ∃ wsOf, s'.db = (t.resume ctx wsOf s.db).db := by
  cases a with
  | resume i ctx' =>
    obtain ⟨⟨c, t'⟩, hi, hp⟩ := Option.map_eq_some_iff.mp resumed
    cases hp
    simp only [step, hi, Option.some.injEq] at h
    subst h
    exact ⟨s.wsOf c, rfl⟩
  | _ => cases resumed

theorem lookup_unchanged {ctx : Ctx} {wsOf : WorkerId → Option SocketId} {db : Db} {t : Task}
    (result : t.ofResult = true) (other : ∀ ws workerId msg, t ≠ .resultTx ws workerId msg) :
    (t.resume ctx wsOf db).db = db := by
  cases t with
  | resultLookup ws workerId msg =>
    simp only [Task.resume]
    split
    · split <;> rfl
    · rfl
  | resultReAck ws msg =>
    simp only [Task.resume]
    split <;> rfl
  | resultTx ws workerId msg => exact absurd rfl (other ws workerId msg)
  | _ => cases result

theorem resultTx_db {ctx : Ctx} {wsOf : WorkerId → Option SocketId} {db : Db} {ws : SocketId}
    {workerId : WorkerId} {msg : JobResult} :
    ((Task.resultTx ws workerId msg).resume ctx wsOf db).db = (onResultTx ctx workerId msg db).2 := by
  simp only [Task.resume]
  split
  · split <;> rfl
  · rfl

/-- One step is all or nothing exactly if it is no early return after the DELETE. -/
theorem allOrNothing_iff (h : step s a = some s') :
    AllOrNothing ⟨s, a, s'⟩ ↔ KeepsTerms ⟨s, a, s'⟩ := by
  constructor
  · rintro ⟨runs, _⟩ ctx t resumed
    rw [Bool.eq_false_iff]
    intro strands
    cases t with
    | resultTx ws workerId msg =>
      simp only [Task.strands, Bool.and_eq_true, decide_eq_true_eq] at strands
      obtain ⟨held, left⟩ := strands
      have rejected : (onResultTx ctx workerId msg s.db).1 = false := by
        rw [onResultTx_discarded held left]
      obtain ⟨wsOf, hdb⟩ := resumed_db h resumed
      rcases runs ctx _ resumed rfl with ⟨accepted, _⟩ | ⟨_, same⟩
      · cases rejected.symm.trans accepted
      · have unchanged : (onResultTx ctx workerId msg s.db).2 = s.db :=
          resultTx_db.symm.trans (hdb.symm.trans same)
        rw [(onResultTx_unchanged_iff rejected).mp unchanged] at held
        cases held
    | _ => cases strands
  · intro keeps
    constructor
    case runs =>
      intro ctx t resumed result
      obtain ⟨wsOf, hdb⟩ := resumed_db h resumed
      by_cases tx : ∃ ws workerId msg, t = .resultTx ws workerId msg
      · obtain ⟨ws, workerId, msg, rfl⟩ := tx
        rw [resultTx_db] at hdb
        have kept := keeps ctx _ resumed
        cases held : s.db.holds msg.jobId workerId msg.token with
        | false =>
          refine .inr ⟨?_, ?_⟩
          · simp [Task.accepts, onResultTx_stale held]
          · rw [hdb, onResultTx_stale held]
        | true =>
          have running : s.db.statusOf msg.jobId = some .dispatched := by
            simpa [Task.strands, held] using kept
          refine .inl ⟨?_, ws, workerId, msg, rfl, hdb ▸ onResultTx_committed held running⟩
          simp [Task.accepts, onResultTx_accepted held running]
      · have other : ∀ ws workerId msg, t ≠ .resultTx ws workerId msg :=
          fun ws workerId msg same => tx ⟨ws, workerId, msg, same⟩
        refine .inr ⟨?_, hdb.trans (lookup_unchanged result other)⟩
        cases t with
        | resultTx ws workerId msg => exact absurd rfl (other ws workerId msg)
        | _ => rfl
    case fails =>
      intro i error c t action hi result
      cases action
      simp only [step, hi, Option.some.injEq] at h
      subst h
      cases t with
      | resultLookup | resultTx | resultReAck => rfl
      | _ => cases result

/-- Every step of every `onResult` is all or nothing in exactly the runs in which no
result transaction finds its lease but its job in another status than DISPATCHED. -/
theorem result_all_or_nothing_iff {start : Cluster} {es : List (Event Cluster Action)}
    (run : Run step start es s) : (∀ e ∈ es, AllOrNothing e) ↔ ∀ e ∈ es, KeepsTerms e :=
  forall₂_congr fun _ he => allOrNothing_iff (run.event he).2

/-- The result of a cancelled job takes its lease away and nothing else. -/
theorem discardRun_partial : ∃ s, Run step init (trace step init discardRun) s ∧
    ¬ ∀ e ∈ trace step init discardRun, AllOrNothing e := by
  obtain ⟨s, hs, _⟩ : ∃ s, exec step init discardRun = some s ∧ true = true :=
    exec_any (by decide)
  have run := run_of_exec discardRun hs
  refine ⟨s, run, fun whole => ?_⟩
  have stranded : (trace step init discardRun).any (fun e =>
      (e.before.resumed e.action).any fun p => p.2.strands e.before.db) = true := by decide
  obtain ⟨e, he, resumed⟩ := List.any_eq_true.mp stranded
  obtain ⟨⟨ctx, t⟩, hr, strands⟩ := (Option.any_eq_true _ _).mp resumed
  have kept := (allOrNothing_iff (run.event he).2).mp (whole e he) ctx t hr
  cases kept.symm.trans strands

theorem result_all_or_nothing_resultRun : ∃ s, Run step init (trace step init resultRun) s ∧
    ∀ e ∈ trace step init resultRun, AllOrNothing e := by
  obtain ⟨s, hs, _⟩ : ∃ s, exec step init resultRun = some s ∧ true = true :=
    exec_any (by decide)
  have run := run_of_exec resultRun hs
  exact ⟨s, run, (result_all_or_nothing_iff run).mpr resultRun_keeps⟩

end Cluster

end Dispatcher
