import Dispatcher.Job.Refinement

namespace Dispatcher
open Tables

def Ctx.alone (ctx : Ctx) : Ctx := { ctx with locked := fun _ => false }

def Db.due (db : Db) (now : Int) (j : JobId) : Bool :=
  (db.leases.lookup j).any (fun l => l.expiresAt < now) && db.statusOf j = some .dispatched

structure Reaped (ctx : Ctx) (now : Int) (db db' : Db) : Prop where
  leases : db'.leases.rows = db.leases.rows.filter fun l =>
    !(l.expiresAt < now && db.statusOf l.jobId = some .dispatched)
  jobs : db'.jobs.rows = db.jobs.rows.map fun r =>
    if db.due now r.jobId then { r with status := .pending, updatedAt := ctx.nowMs } else r
  history : db'.leaseHistory = db.leaseHistory.map fun h =>
    if db.due now h.jobId ∧ h.terminatedAtMs = none then { h with terminatedAtMs := some ctx.laterMs }
    else h
  transitions : ∃ ids : List JobId, ids.Nodup ∧ (∀ j, j ∈ ids ↔ db.due now j = true) ∧
    db'.jobTransitions = db.jobTransitions ++ ids.map fun j =>
      ⟨j, some .dispatched, .pending, ctx.laterMs, ctx.coordinatorId⟩
  attempts : db'.commitAttempts = db.commitAttempts
  sequence : db'.fencingSeq = db.fencingSeq

def Job.untimed (r : Job) : Job := { r with updatedAt := 0 }

def LeaseHistory.untimed (h : LeaseHistory) : LeaseHistory :=
  { h with terminatedAtMs := h.terminatedAtMs.map fun _ => 0 }

def JobTransition.untimed (t : JobTransition) : JobTransition :=
  { t with atMs := 0, coordinatorId := "" }

structure Alike (db db' : Db) : Prop where
  jobs : db.jobs.rows.map Job.untimed = db'.jobs.rows.map Job.untimed
  leases : db.leases = db'.leases
  history : db.leaseHistory.map LeaseHistory.untimed = db'.leaseHistory.map LeaseHistory.untimed
  transitions : (db.jobTransitions.map JobTransition.untimed).Perm
    (db'.jobTransitions.map JobTransition.untimed)
  attempts : db.commitAttempts = db'.commitAttempts
  sequence : db.fencingSeq = db'.fencingSeq

theorem Alike.refl (db : Db) : Alike db db := ⟨rfl, rfl, rfl, .refl _, rfl, rfl⟩

theorem Alike.trans {db₁ db₂ db₃ : Db} (h : Alike db₁ db₂) (h' : Alike db₂ db₃) : Alike db₁ db₃ where
  jobs := h.jobs.trans h'.jobs
  leases := h.leases.trans h'.leases
  history := h.history.trans h'.history
  transitions := h.transitions.trans h'.transitions
  attempts := h.attempts.trans h'.attempts
  sequence := h.sequence.trans h'.sequence

theorem Alike.symm {db db' : Db} (h : Alike db db') : Alike db' db where
  jobs := h.jobs.symm
  leases := h.leases.symm
  history := h.history.symm
  transitions := h.transitions.symm
  attempts := h.attempts.symm
  sequence := h.sequence.symm

/-- The four writes of the reaper, for the jobs of `p`. -/
def Db.reap (db : Db) (ctx : Ctx) (p : JobId → Bool) : Db where
  jobs := db.jobs.update (fun r => p r.jobId) (Db.JobPatch.on ⟨.pending, none, ctx.nowMs⟩) fun _ => rfl
  leases := db.leases.delete fun l => p l.jobId
  leaseHistory := db.leaseHistory.map (·.terminate p ctx.laterMs)
  jobTransitions := db.jobTransitions ++ (db.leases.rows.filter fun l => p l.jobId).map fun l =>
    JobEvent.log ctx l.jobId (some .dispatched) .pending
  commitAttempts := db.commitAttempts
  fencingSeq := db.fencingSeq

variable {db db' : Db} {ctx ctx' : Ctx} {now : Int} {p q : JobId → Bool} {j : JobId}

theorem due_iff : db.due now j = true ↔ ∃ l, db.leases.lookup j = some l ∧ l.expiresAt < now ∧
    db.statusOf j = some .dispatched := by
  simp only [Db.due, Bool.and_eq_true, Option.any_eq_true, decide_eq_true_eq]
  constructor
  · rintro ⟨⟨l, hl, expired⟩, running⟩
    exact ⟨l, hl, expired, running⟩
  · rintro ⟨l, hl, expired, running⟩
    exact ⟨⟨l, hl, expired⟩, running⟩

theorem due_lease {l : Lease} (hl : l ∈ db.leases.rows) :
    db.due now l.jobId = (l.expiresAt < now && db.statusOf l.jobId = some .dispatched) := by
  simp [Db.due, Table.lookup_of_mem hl]

theorem contains_reapedIds : (reapedIds ctx.alone now db).contains j = db.due now j := by
  rw [Bool.eq_iff_iff, List.contains_iff_mem, mem_reapedIds, due_iff]
  simp [Ctx.alone]

theorem due_status {r : Job} (hr : r ∈ db.jobs.rows) (due : db.due now r.jobId = true) :
    r.status = .dispatched := by
  obtain ⟨l, _, _, running⟩ := due_iff.mp due
  have status : db.statusOf r.jobId = some r.status := by simp [Db.statusOf, Table.lookup_of_mem hr]
  exact Option.some.inj (status.symm.trans running)

/-- The ids come from the leases that go. -/
theorem reapedIds_eq : reapedIds ctx.alone now db =
    (db.leases.rows.filter fun l => db.due now l.jobId).map Lease.jobId := by
  refine congrArg _ (List.filter_congr fun l hl => ?_)
  simp [due_lease hl, Ctx.alone]

theorem reap_none (h : ∀ j, p j = false) : db.reap ctx p = db := by
  have history : db.leaseHistory.map (·.terminate p ctx.laterMs) = db.leaseHistory := by
    refine (List.map_congr_left fun q _ => ?_).trans (List.map_id _)
    simp [LeaseHistory.terminate, h]
  have jobs : db.jobs.update (fun r => p r.jobId) (Db.JobPatch.on ⟨.pending, none, ctx.nowMs⟩)
      (fun _ => rfl) = db.jobs := Table.update_eq_self fun r _ => h r.jobId
  have leases := Table.delete_eq_self (t := db.leases) (p := fun l => p l.jobId) fun l _ => h l.jobId
  have logs : (db.leases.rows.filter fun l => p l.jobId) = [] := by simp [h]
  rw [Db.reap, jobs, leases, history, logs, List.map_nil, List.append_nil]

/-- A tick reaps what is due. -/
theorem reaperTx_alone : reaperTx ctx.alone now db = db.reap ctx (db.due now) := by
  rw [reaperTx_eq]
  split
  next none =>
    refine (reap_none fun j => ?_).symm
    have contained : (reapedIds ctx.alone now db).contains j = db.due now j := contains_reapedIds
    rw [← contained, List.isEmpty_iff.mp none]
    rfl
  next =>
    have jobs : db.jobs.update (fun r => (reapedIds ctx.alone now db).contains r.jobId &&
        r.status = .dispatched) (Db.JobPatch.on ⟨.pending, none, ctx.nowMs⟩) (fun _ => rfl) =
        db.jobs.update (fun r => db.due now r.jobId) (Db.JobPatch.on ⟨.pending, none, ctx.nowMs⟩)
          fun _ => rfl := by
      refine Table.update_congr _ fun r hr => ?_
      rw [contains_reapedIds]
      cases due : db.due now r.jobId with
      | false => rfl
      | true => simp [due_status hr due]
    have leases : db.leases.delete (fun l => (reapedIds ctx.alone now db).contains l.jobId) =
        db.leases.delete fun l => db.due now l.jobId :=
      Table.delete_congr fun l _ => contains_reapedIds
    have closed : (fun id => (reapedIds ctx.alone now db).contains id) = db.due now :=
      funext fun _ => contains_reapedIds
    have logs : (reapedIds ctx.alone now db).map
        (fun id => JobEvent.log ctx.alone id (some .dispatched) .pending) =
        (db.leases.rows.filter fun l => db.due now l.jobId).map fun l =>
          JobEvent.log ctx l.jobId (some .dispatched) .pending := by
      rw [reapedIds_eq, List.map_map]
      rfl
    have history : db.leaseHistory.map
        (·.terminate (fun id => (reapedIds ctx.alone now db).contains id) ctx.laterMs) =
        db.leaseHistory.map (·.terminate (db.due now) ctx.laterMs) := by rw [closed]
    simp only [Db.reap, Db.deleteLeases, Db.updateJobs, Db.terminateHistory,
      Db.insertJobTransitions, Db.mk.injEq]
    exact ⟨jobs, leases, history, congrArg (db.jobTransitions ++ ·) logs, trivial, trivial⟩

/-- One tick with no locks about has exactly this effect on the tables. -/
theorem reaperTx_reaped : Reaped ctx now db (reaperTx ctx.alone now db) := by
  rw [reaperTx_alone]
  constructor
  case leases =>
    exact List.filter_congr fun l hl => congrArg (!·) (due_lease hl)
  case jobs => rfl
  case history =>
    refine List.map_congr_left fun h _ => ?_
    simp [LeaseHistory.terminate]
  case transitions =>
    refine ⟨reapedIds ctx.alone now db, reapedIds_nodup _ _ _, fun j => ?_, ?_⟩
    · have contained : (reapedIds ctx.alone now db).contains j = db.due now j :=
        contains_reapedIds
      rw [← contained, List.contains_iff_mem]
    · rw [reapedIds_eq, List.map_map]
      rfl
  all_goals rfl

/-- Two reaps are one reap of the jobs of both. -/
theorem reap_reap : Alike ((db.reap ctx p).reap ctx' q) (db.reap ctx fun j => p j || q j) := by
  constructor
  case jobs =>
    simp only [Db.reap, Table.update, List.map_map]
    refine List.map_congr_left fun r _ => ?_
    cases hp : p r.jobId <;> cases hq : q r.jobId <;>
      simp [hp, hq, Db.JobPatch.on, Job.untimed]
  case leases =>
    refine Table.ext ?_
    simp only [Db.reap, Table.delete, List.filter_filter, Bool.not_or, Bool.and_comm]
  case history =>
    simp only [Db.reap, List.map_map]
    refine List.map_congr_left fun h _ => ?_
    cases hp : p h.jobId <;> cases hq : q h.jobId <;> cases ht : h.terminatedAtMs <;>
      simp [hp, hq, ht, LeaseHistory.terminate, LeaseHistory.untimed]
  case transitions =>
    -- the leases of `p`, and those of `q` among the others
    have parts : ((db.leases.rows.filter fun l => p l.jobId) ++
        (db.leases.rows.filter fun l => !p l.jobId).filter fun l => q l.jobId).Perm
        (db.leases.rows.filter fun l => p l.jobId || q l.jobId) := by
      have split := List.filter_append_perm (fun l : Lease => p l.jobId)
        (db.leases.rows.filter fun l => p l.jobId || q l.jobId)
      have first : (db.leases.rows.filter fun l => p l.jobId || q l.jobId).filter
          (fun l => p l.jobId) = db.leases.rows.filter fun l => p l.jobId := by
        rw [List.filter_filter]
        refine List.filter_congr fun l _ => ?_
        cases p l.jobId <;> rfl
      have rest : (db.leases.rows.filter fun l => p l.jobId || q l.jobId).filter
          (fun l => !p l.jobId) =
          (db.leases.rows.filter fun l => !p l.jobId).filter fun l => q l.jobId := by
        rw [List.filter_filter, List.filter_filter]
        refine List.filter_congr fun l _ => ?_
        cases p l.jobId <;> simp
      rwa [first, rest] at split
    let row := fun l : Lease => (⟨l.jobId, some .dispatched, .pending, 0, ""⟩ : JobTransition)
    have logs : ∀ (ctx : Ctx) (ls : List Lease), (ls.map fun l =>
        JobEvent.log ctx l.jobId (some .dispatched) .pending).map JobTransition.untimed =
        ls.map row := by
      intro ctx ls
      rw [List.map_map]
      rfl
    simp only [Db.reap, Table.delete, List.map_append, logs, List.append_assoc]
    rw [← List.map_append]
    exact (parts.map row).append_left _
  case attempts => rfl
  case sequence => rfl

theorem Alike.status (h : Alike db db') (j : JobId) : db.statusOf j = db'.statusOf j := by
  have stripped : ∀ db : Db, db.statusOf j =
      ((db.jobs.rows.map Job.untimed).find? fun r => r.jobId = j).map Job.status := by
    intro db
    rw [List.find?_map, Option.map_map]
    rfl
  rw [stripped db, stripped db', h.jobs]

/-- Alike databases have the same jobs due. -/
theorem Alike.due (h : Alike db db') (now : Int) : db.due now = db'.due now := by
  funext j
  rw [Db.due, Db.due, h.leases, h.status]

theorem Alike.reap (h : Alike db db') : Alike (db.reap ctx p) (db'.reap ctx' p) := by
  constructor
  case jobs =>
    let patched := fun r : Job => if p r.jobId then { r with status := JobStatus.pending } else r
    have stripped : ∀ (ctx : Ctx) (db : Db), (db.reap ctx p).jobs.rows.map Job.untimed =
        (db.jobs.rows.map Job.untimed).map patched := by
      intro ctx db
      simp only [Db.reap, Table.update, List.map_map]
      refine List.map_congr_left fun r _ => ?_
      by_cases hp : p r.jobId <;> simp [patched, hp, Db.JobPatch.on, Job.untimed]
    rw [stripped, stripped, h.jobs]
  case leases => exact congrArg (fun t => Table.delete t fun l => p l.jobId) h.leases
  case history =>
    let closed := fun q : LeaseHistory => q.terminate p 0
    have stripped : ∀ (ctx : Ctx) (db : Db),
        (db.reap ctx p).leaseHistory.map LeaseHistory.untimed =
        (db.leaseHistory.map LeaseHistory.untimed).map closed := by
      intro ctx db
      simp only [Db.reap, List.map_map]
      refine List.map_congr_left fun q _ => ?_
      by_cases hp : p q.jobId <;> cases ht : q.terminatedAtMs <;>
        simp [closed, hp, ht, LeaseHistory.terminate, LeaseHistory.untimed]
    rw [stripped, stripped, h.history]
  case transitions =>
    simp only [Db.reap, List.map_append, List.map_map, h.leases]
    refine h.transitions.append ?_
    exact List.Perm.of_eq rfl
  case attempts => exact h.attempts
  case sequence => exact h.sequence

theorem reap_lease : (db.reap ctx p).leases.lookup j = if p j then none else db.leases.lookup j := by
  refine (Table.lookup_delete ..).trans ?_
  cases hl : db.leases.lookup j with
  | none => simp
  | some l =>
    have hj : l.jobId = j := Table.lookup_key hl
    by_cases hp : p j <;> simp [hj, hp]

theorem reap_status (other : p j = false) : (db.reap ctx p).statusOf j = db.statusOf j := by
  have lookup := Table.lookup_update db.jobs (fun r => p r.jobId)
    (Db.JobPatch.on ⟨.pending, none, ctx.nowMs⟩) (fun _ => rfl) j
  rw [Db.statusOf, Db.statusOf, Db.reap, lookup]
  cases hr : db.jobs.lookup j with
  | none => rfl
  | some r =>
    have hj : r.jobId = j := Table.lookup_key hr
    simp [hj, other]

/-- What is due after a tick was due before and has not been reaped. -/
theorem due_reap {later : Int} :
    (db.reap ctx p).due later = fun j => !p j && db.due later j := by
  funext j
  cases hp : p j with
  | true => simp [Db.due, reap_lease, hp]
  | false => simp [Db.due, reap_lease, reap_status hp, hp]

theorem due_max (now later : Int) :
    (fun j => db.due now j || (!db.due now j && db.due later j)) = db.due (max now later) := by
  funext j
  cases hl : db.leases.lookup j with
  | none => simp [Db.due, hl]
  | some l =>
    by_cases running : db.statusOf j = some .dispatched
    · rw [Bool.eq_iff_iff]
      simp only [Db.due, hl, running, Option.any_some, decide_true, Bool.and_true, Bool.or_eq_true,
        Bool.and_eq_true, Bool.not_eq_true', decide_eq_true_eq, decide_eq_false_iff_not]
      omega
    · simp [Db.due, running]

/-- One tick of a coordinator, with nothing else going on. -/
def reaperTick (db : Db) (t : Ctx × Int) : Db := reaperTx t.1.alone t.2 db

/-- A tick reaps the jobs that are due at its time. -/
theorem tick_eq (db : Db) (t : Ctx × Int) : reaperTick db t = db.reap t.1 (db.due t.2) := reaperTx_alone

theorem tick_alike {t u : Ctx × Int} (h : Alike db db') (same : t.2 = u.2) :
    Alike (reaperTick db t) (reaperTick db' u) := by
  rw [tick_eq, tick_eq, h.due, same]
  exact h.reap

/-- Two ticks reap what one at the later time does. -/
theorem tick_tick (t u : Ctx × Int) (ctx : Ctx) (db : Db) :
    Alike (reaperTick (reaperTick db t) u) (reaperTick db (ctx, max t.2 u.2)) := by
  have twice : Alike
      ((db.reap t.1 (db.due t.2)).reap u.1 fun j => !db.due t.2 j && db.due u.2 j)
      (db.reap t.1 fun j => db.due t.2 j || (!db.due t.2 j && db.due u.2 j)) := reap_reap
  rw [due_max] at twice
  rw [tick_eq (reaperTick db t), tick_eq db t, due_reap, tick_eq]
  exact twice.trans (Alike.refl db).reap

/-- A tick after another that was not earlier does nothing. -/
theorem tick_again (t : Ctx × Int) (ctx : Ctx) (db : Db) :
    reaperTick (reaperTick db t) (ctx, t.2) = reaperTick db t := by
  rw [tick_eq (reaperTick db t), tick_eq db t]
  refine reap_none fun j => ?_
  rw [due_reap]
  exact Bool.not_and_self _

/-- Databases that are alike stay so. -/
theorem ticks_alike (ts : List (Ctx × Int)) (h : Alike db db') :
    Alike (ts.foldl reaperTick db) (ts.foldl reaperTick db') := by
  induction ts generalizing db db' with
  | nil => exact h
  | cons t ts ih => exact ih (tick_alike h rfl)

/-- Any ticks come to the same as one at the latest time. -/
theorem ticks_max (ctx : Ctx) (t : Ctx × Int) (ts : List (Ctx × Int)) (db : Db) :
    Alike (ts.foldl reaperTick (reaperTick db t)) (reaperTick db (ctx, (ts.map Prod.snd).foldl max t.2)) := by
  induction ts generalizing t with
  | nil => exact tick_alike (Alike.refl db) rfl
  | cons u ts ih =>
    -- the first two ticks are one at the later time
    have two := ticks_alike ts (tick_tick t u ctx db)
    exact two.trans (ih (ctx, max t.2 u.2))

/-- A tick reaps exactly what is due, and any ticks in any order do what one tick at
the latest of their times does. -/
theorem reaping_confluent :
    (∀ ctx now db, Reaped ctx now db (reaperTx ctx.alone now db)) ∧
    (∀ db ctx t ts, Alike ((t :: ts).foldl reaperTick db)
      (reaperTick db (ctx, (ts.map Prod.snd).foldl max t.2))) ∧
    (∀ db t u, Alike (reaperTick (reaperTick db t) u) (reaperTick (reaperTick db u) t)) ∧
    ∀ db t ctx, reaperTick (reaperTick db t) (ctx, t.2) = reaperTick db t := by
  refine ⟨fun _ _ _ => reaperTx_reaped, fun db ctx t ts => ticks_max ctx t ts db, ?_,
    fun db t ctx => tick_again t ctx db⟩
  intro db t u
  have there := tick_tick t u t.1 db
  have back := tick_tick u t t.1 db
  rw [Int.max_comm] at back
  exact there.trans back.symm

end Dispatcher
