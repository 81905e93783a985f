import Dispatcher.Job.Consistent
import Dispatcher.Model.Cluster

namespace Dispatcher
open Tables

/-- The part of the database that is about one job. -/
def Db.view (db : Db) (j : JobId) : JobView where
  job := db.jobs.lookup j
  lease := db.leases.lookup j
  history := db.leaseHistory.filter fun h => h.jobId = j
  transitions := db.jobTransitions.filter fun t => t.jobId = j
  commits := db.commitAttempts.filter fun c => c.jobId = j

def Db.transitionsOf (db : Db) (j : JobId) : List JobTransition :=
  db.jobTransitions.filter fun t => t.jobId = j

/-- A row as a step between statuses; `none` is the empty string. -/
def JobTransition.edge (t : JobTransition) : Option JobStatus × Option JobStatus :=
  (t.fromStatus, some t.toStatus)

theorem Db.view_status (db : Db) (j : JobId) : (db.view j).status = db.statusOf j := rfl

theorem view_deleteLeases (db : Db) (p : Lease → Bool) (k : JobId) :
    (db.deleteLeases p).2.view k =
      { db.view k with lease := (db.view k).lease.filter fun l => !p l } := by
  simp [Db.view, Db.deleteLeases, Table.lookup_delete]

theorem view_updateLeases (db : Db) (p : Lease → Bool) (expiresAt : Int) (k : JobId) :
    (db.updateLeases p expiresAt).view k =
      { db.view k with
        lease := (db.view k).lease.map fun l => if p l then { l with expiresAt } else l } := by
  simp [Db.view, Db.updateLeases, Table.lookup_update]

theorem view_updateJobs (db : Db) (p : Job → Bool) (patch : Db.JobPatch) (k : JobId) :
    (db.updateJobs p patch).2.view k =
      { db.view k with job := (db.view k).job.map fun r => if p r then patch.on r else r } := by
  have hj := Table.lookup_update db.jobs p patch.on (fun _ => rfl) k
  simp only [Db.view, Db.updateJobs, hj]

theorem LeaseHistory.terminate_jobId (p : JobId → Bool) (atMs : Int) (h : LeaseHistory) :
    (h.terminate p atMs).jobId = h.jobId := by
  unfold LeaseHistory.terminate
  split <;> rfl

theorem view_terminateHistory (db : Db) (p : JobId → Bool) (atMs : Int) (k : JobId) :
    (db.terminateHistory p atMs).view k =
      { db.view k with
        history := if p k then (db.view k).terminate atMs else (db.view k).history } := by
  have he : (db.leaseHistory.map (·.terminate p atMs)).filter (fun h => h.jobId = k) =
      (db.leaseHistory.filter fun h => h.jobId = k).map (·.terminate p atMs) := by
    rw [List.filter_map]
    congr 1
    apply List.filter_congr
    intro h _
    simp [LeaseHistory.terminate_jobId]
  simp only [Db.view, Db.terminateHistory, he, JobView.terminate, JobView.mk.injEq, true_and,
    and_true]
  by_cases hp : p k
  · simp only [hp, ↓reduceIte]
    apply List.map_congr_left
    intro h hm
    have hk : h.jobId = k := by simpa using (List.mem_filter.mp hm).2
    simp [LeaseHistory.terminate, hk, hp]
  · simp only [hp, Bool.false_eq_true, ↓reduceIte]
    conv_rhs => rw [← List.map_id (List.filter _ _)]
    apply List.map_congr_left
    intro h hm
    have hk : h.jobId = k := by simpa using (List.mem_filter.mp hm).2
    simp [LeaseHistory.terminate, hk, hp]

theorem view_insertLeaseHistory (db : Db) (row : LeaseHistory) (k : JobId) :
    (db.insertLeaseHistory row).view k =
      { db.view k with history := (db.view k).history ++ if row.jobId = k then [row] else [] } := by
  by_cases h : row.jobId = k <;> simp [Db.view, Db.insertLeaseHistory, h]

theorem view_insertCommitAttempt (db : Db) (row : CommitAttempt) (k : JobId) :
    (db.insertCommitAttempt row).view k =
      { db.view k with commits := (db.view k).commits ++ if row.jobId = k then [row] else [] } := by
  by_cases h : row.jobId = k <;> simp [Db.view, Db.insertCommitAttempt, h]

theorem view_insertJobTransitions (db : Db) (rows : List JobTransition) (k : JobId) :
    (db.insertJobTransitions rows).view k =
      { db.view k with
        transitions := (db.view k).transitions ++ rows.filter fun t => t.jobId = k } := by
  simp [Db.view, Db.insertJobTransitions, List.filter_append]

/-- A statement that affects no row changes nothing. -/
theorem deleteLeases_none {db : Db} {p : Lease → Bool} (h : db.leases.count p = 0) :
    (db.deleteLeases p).2 = db := by
  have he : db.leases.delete p = db.leases := Table.delete_eq_self (Table.count_eq_zero.mp h)
  simp only [Db.deleteLeases, he]

theorem updateJobs_none {db : Db} {p : Job → Bool} (h : db.jobs.count p = 0)
    (patch : Db.JobPatch) : (db.updateJobs p patch).2 = db := by
  have he : db.jobs.update p patch.on (fun _ => rfl) = db.jobs :=
    Table.update_eq_self (Table.count_eq_zero.mp h)
  simp only [Db.updateJobs, he]

/-- A statement pinned to one job leaves the lease of another. -/
theorem filter_lease_other {db : Db} {p : Lease → Bool} {j k : JobId}
    (hp : ∀ l, p l = true → l.jobId = j) (hk : k ≠ j) :
    (db.view k).lease.filter (fun l => !p l) = (db.view k).lease := by
  cases hl : (db.view k).lease with
  | none => rfl
  | some l =>
    have hlk : l.jobId = k := Table.lookup_key hl
    have hn : p l = false := by
      by_contra hc
      exact hk (hlk.symm.trans (hp l (by simpa using hc)))
    simp [hn]

theorem map_lease_other {db : Db} {p : Lease → Bool} {f : Lease → Lease} {j k : JobId}
    (hp : ∀ l, p l = true → l.jobId = j) (hk : k ≠ j) :
    (db.view k).lease.map (fun l => if p l then f l else l) = (db.view k).lease := by
  cases hl : (db.view k).lease with
  | none => rfl
  | some l =>
    have hlk : l.jobId = k := Table.lookup_key hl
    have hn : p l = false := by
      by_contra hc
      exact hk (hlk.symm.trans (hp l (by simpa using hc)))
    simp [hn]

theorem map_job_other {db : Db} {p : Job → Bool} {f : Job → Job} {j k : JobId}
    (hp : ∀ r, p r = true → r.jobId = j) (hk : k ≠ j) :
    (db.view k).job.map (fun r => if p r then f r else r) = (db.view k).job := by
  cases hr : (db.view k).job with
  | none => rfl
  | some r =>
    have hrk : r.jobId = k := Table.lookup_key hr
    have hn : p r = false := by
      by_contra hc
      exact hk (hrk.symm.trans (hp r (by simpa using hc)))
    simp [hn]

/-- The UPDATE guarded by DISPATCHED. -/
theorem view_updateDispatched (db : Db) (patch : Db.JobPatch) (j k : JobId) :
    (db.updateJobs (fun r => r.jobId = j && r.status = .dispatched) patch).2.view k =
      { db.view k with
        job := if k = j then (db.view k).patchDispatched patch else (db.view k).job } := by
  rw [view_updateJobs]
  split
  · rename_i hk
    subst hk
    cases hr : (db.view k).job with
    | none => simp [JobView.patchDispatched, hr]
    | some r =>
      have hrk : r.jobId = k := Table.lookup_key hr
      simp [JobView.patchDispatched, hr, hrk]
  · rename_i hk
    rw [map_job_other (j := j) (by simp +contextual) hk]

/-- The UPDATE with the job's id alone. -/
theorem view_updateJob (db : Db) (patch : Db.JobPatch) (j k : JobId) :
    (db.updateJobs (fun r => r.jobId = j) patch).2.view k =
      { db.view k with
        job := if k = j then (db.view k).job.map patch.on else (db.view k).job } := by
  rw [view_updateJobs]
  split
  · rename_i hk
    subst hk
    cases hr : (db.view k).job with
    | none => rfl
    | some r =>
      have hrk : r.jobId = k := Table.lookup_key hr
      simp [hrk]
  · rename_i hk
    rw [map_job_other (j := j) (by simp) hk]

/-- The DELETE with the job's id alone. -/
theorem view_deleteLease (db : Db) (j k : JobId) :
    (db.deleteLeases fun l => l.jobId = j).2.view k =
      { db.view k with lease := if k = j then none else (db.view k).lease } := by
  rw [view_deleteLeases]
  split
  · rename_i hk
    subst hk
    cases hl : (db.view k).lease with
    | none => rfl
    | some l =>
      have hlk : l.jobId = k := Table.lookup_key hl
      simp [hlk]
  · rename_i hk
    rw [filter_lease_other (j := j) (by simp) hk]

/-- `Leases` has exactly this row, whatever its expiry. -/
def Db.holds (db : Db) (j : JobId) (workerId : WorkerId) (token : Token) : Bool :=
  (db.leases.lookup j).any fun l => l.workerId = workerId && l.token = token

/-- The lease that a message names is the one that the job has. -/
theorem holds_iff {db : Db} {j : JobId} {workerId : WorkerId} {token : Token} :
    db.holds j workerId token = true ↔
      ∃ l, db.leases.lookup j = some l ∧ l.workerId = workerId ∧ l.token = token := by
  unfold Db.holds
  cases db.leases.lookup j <;> simp

def JobView.after (j : JobId) (v : JobView) : Option JobEvent → JobView
  | none => v
  | some e => e.apply j v

def resultEvent (ctx : Ctx) (workerId : WorkerId) (msg : JobResult) (db : Db) : Option JobEvent :=
  if db.holds msg.jobId workerId msg.token then
    if db.statusOf msg.jobId = some .dispatched then
      some (.accepted ctx workerId msg.token msg.result)
    else some .discarded
  else none

theorem named_lease {db : Db} {j : JobId} {workerId : WorkerId} {token : Token} :
    db.leases.count (fun l => l.jobId = j && l.workerId = workerId && l.token = token) = 0 ↔
      db.holds j workerId token = false := by
  rw [Table.count_pinned (k := j) (by simp +contextual)]
  unfold Db.holds
  cases hl : db.leases.lookup j with
  | none => simp
  | some l =>
    have hj : l.jobId = j := Table.lookup_key hl
    simp [hj]

theorem dispatched_count {db : Db} {j : JobId} :
    db.jobs.count (fun r => r.jobId = j && r.status = .dispatched) = 0 ↔
      db.statusOf j ≠ some .dispatched := by
  rw [Table.count_pinned (k := j) (by simp +contextual)]
  unfold Db.statusOf
  cases hr : db.jobs.lookup j with
  | none => simp
  | some r =>
    have hj : r.jobId = j := Table.lookup_key hr
    simp [hj]

theorem view_delete_named {db : Db} {j : JobId} {workerId : WorkerId} {token : Token}
    (hh : db.holds j workerId token = true) :
    (db.view j).lease.filter
      (fun l => !(l.jobId = j && l.workerId = workerId && l.token = token)) = none := by
  unfold Db.holds at hh
  change (db.leases.lookup j).filter _ = none
  cases hl : db.leases.lookup j with
  | none => rfl
  | some l =>
    have hj : l.jobId = j := Table.lookup_key hl
    simp only [hl, Option.any_some, Bool.and_eq_true, decide_eq_true_eq] at hh
    simp [hj, hh]

theorem onResultTx_stale {ctx : Ctx} {workerId : WorkerId} {msg : JobResult} {db : Db}
    (hh : db.holds msg.jobId workerId msg.token = false) :
    onResultTx ctx workerId msg db = (false, db) := by
  have hc := named_lease.mpr hh
  have hd := deleteLeases_none hc
  unfold onResultTx
  simp only [Db.deleteLeases] at hd ⊢
  simp only [hc, hd, ↓reduceIte]

/-- The DELETE of `onResult` finds its lease. -/
def resultDelete (workerId : WorkerId) (msg : JobResult) (db : Db) : Db :=
  (db.deleteLeases fun l =>
    l.jobId = msg.jobId && l.workerId = workerId && l.token = msg.token).2

theorem onResultTx_discarded {ctx : Ctx} {workerId : WorkerId} {msg : JobResult} {db : Db}
    (hh : db.holds msg.jobId workerId msg.token = true)
    (hs : db.statusOf msg.jobId ≠ some .dispatched) :
    onResultTx ctx workerId msg db = (false, resultDelete workerId msg db) := by
  have hc : ¬ db.leases.count (fun l => l.jobId = msg.jobId && l.workerId = workerId &&
      l.token = msg.token) = 0 := by simp [named_lease, hh]
  have hu := dispatched_count.mpr hs
  have hj : db.jobs.update (fun r => r.jobId = msg.jobId && r.status = .dispatched)
      (Db.JobPatch.on ⟨.succeeded, some msg.result, ctx.nowMs⟩) (fun _ => rfl) = db.jobs :=
    Table.update_eq_self (Table.count_eq_zero.mp hu)
  simp only [onResultTx, resultDelete, Db.deleteLeases, Db.updateJobs, hc, hu, hj, ↓reduceIte]

theorem onResultTx_accepted {ctx : Ctx} {workerId : WorkerId} {msg : JobResult} {db : Db}
    (hh : db.holds msg.jobId workerId msg.token = true)
    (hs : db.statusOf msg.jobId = some .dispatched) :
    onResultTx ctx workerId msg db = (true,
      ((((resultDelete workerId msg db).updateJobs
          (fun r => r.jobId = msg.jobId && r.status = .dispatched)
          ⟨.succeeded, some msg.result, ctx.nowMs⟩).2.insertCommitAttempt
        ⟨msg.jobId, true, msg.token, workerId, ctx.laterMs⟩).terminateHistory
        (· = msg.jobId) ctx.laterMs).insertJobTransitions
        [JobEvent.log ctx msg.jobId (some .dispatched) .succeeded]) := by
  have hc : ¬ db.leases.count (fun l => l.jobId = msg.jobId && l.workerId = workerId &&
      l.token = msg.token) = 0 := by simp [named_lease, hh]
  have hu : ¬ db.jobs.count (fun r => r.jobId = msg.jobId && r.status = .dispatched) = 0 := by
    simpa [dispatched_count] using hs
  simp only [onResultTx, resultDelete, Db.deleteLeases, Db.updateJobs, hc, hu, ↓reduceIte]
  rfl

theorem resultDelete_view {workerId : WorkerId} {msg : JobResult} {db : Db}
    (hh : db.holds msg.jobId workerId msg.token = true) (k : JobId) :
    (resultDelete workerId msg db).view k =
      if k = msg.jobId then { db.view k with lease := none } else db.view k := by
  simp only [resultDelete, view_deleteLeases]
  split
  · rename_i hk
    subst hk
    rw [view_delete_named hh]
  · rename_i hk
    rw [filter_lease_other (j := msg.jobId) (by simp +contextual) hk]

/-- To each job, the transaction of a result does one event or nothing. -/
theorem onResultTx_view (ctx : Ctx) (workerId : WorkerId) (msg : JobResult) (db : Db) (k : JobId) :
    (onResultTx ctx workerId msg db).2.view k =
      (db.view k).after k (if k = msg.jobId then resultEvent ctx workerId msg db else none) := by
  cases hh : db.holds msg.jobId workerId msg.token with
  | false => simp [onResultTx_stale hh, resultEvent, hh, JobView.after]
  | true =>
    by_cases hs : db.statusOf msg.jobId = some .dispatched
    · rw [onResultTx_accepted hh hs]
      simp only [view_insertJobTransitions, view_terminateHistory, view_insertCommitAttempt,
        view_updateDispatched, resultDelete_view hh, resultEvent, hh, hs, ↓reduceIte]
      by_cases hk : k = msg.jobId
      · subst hk
        simp [JobView.after, JobEvent.apply, JobView.terminate, JobView.patchDispatched,
          JobEvent.log]
      · simp [JobView.after, hk, Ne.symm hk, JobEvent.log]
    · rw [onResultTx_discarded hh hs]
      simp only [resultDelete_view hh, resultEvent, hh, hs, ↓reduceIte]
      by_cases hk : k = msg.jobId <;> simp [JobView.after, hk, JobEvent.apply]

def failedEvent (ctx : Ctx) (msg : JobFailed) : JobEvent :=
  if msg.temporary then .requeued ctx else .failed ctx

/-- `onFailed` changes its own job only, whatever the message says of the lease. -/
theorem onFailedTx_view (ctx : Ctx) (msg : JobFailed) (db : Db) (k : JobId) :
    (onFailedTx ctx msg db).view k =
      (db.view k).after k (if k = msg.jobId then some (failedEvent ctx msg) else none) := by
  unfold onFailedTx failedEvent
  split
  · simp only [view_terminateHistory, view_updateDispatched, view_deleteLease]
    by_cases hk : k = msg.jobId <;>
      simp [hk, JobView.after, JobEvent.apply, JobView.terminate, JobView.patchDispatched]
  · simp only [view_insertJobTransitions, view_terminateHistory, view_updateDispatched,
      view_deleteLease]
    by_cases hk : k = msg.jobId
    · simp [hk, JobView.after, JobEvent.apply, JobView.terminate, JobView.patchDispatched,
        JobEvent.log]
    · simp [hk, Ne.symm hk, JobView.after]

def heartbeatEvent (workerId : WorkerId) (msg : JobHeartbeat) (newExpiry : Int) (db : Db) :
    Option JobEvent :=
  if db.holds msg.jobId workerId msg.token then some (.extended newExpiry) else none

theorem JobView.lease_eta {v : JobView} (h : v.lease = l) : { v with lease := l } = v := by
  subst h
  rfl

/-- A heartbeat changes the expiry of its own lease at most. -/
theorem onHeartbeatUpdate_view (workerId : WorkerId) (msg : JobHeartbeat) (newExpiry : Int) (db : Db)
    (k : JobId) : (onHeartbeatUpdate workerId msg newExpiry db).view k =
      (db.view k).after k
        (if k = msg.jobId then heartbeatEvent workerId msg newExpiry db else none) := by
  simp only [onHeartbeatUpdate, view_updateLeases]
  by_cases hk : k = msg.jobId
  · subst hk
    have hh : db.holds msg.jobId workerId msg.token = (db.view msg.jobId).lease.any fun l =>
        l.workerId = workerId && l.token = msg.token := rfl
    simp only [heartbeatEvent, hh, ↓reduceIte]
    cases hl : (db.view msg.jobId).lease with
    | none => exact JobView.lease_eta hl
    | some l =>
      have hlj : l.jobId = msg.jobId := Table.lookup_key hl
      by_cases hm : l.workerId = workerId ∧ l.token = msg.token
      · simp [hlj, hm, JobView.after, JobEvent.apply, hl]
      · have hn : ¬ (l.jobId = msg.jobId ∧ l.workerId = workerId ∧ l.token = msg.token) :=
          fun h => hm h.2
        simpa [hlj, hm, JobView.after] using JobView.lease_eta hl
  · rw [map_lease_other (j := msg.jobId) (by simp +contextual) hk]
    simp [hk, JobView.after]

def reapedIds (ctx : Ctx) (now : Int) (db : Db) : List JobId :=
  (expiredLeases ctx now db).map Lease.jobId

theorem reapedIds_nodup (ctx : Ctx) (now : Int) (db : Db) : (reapedIds ctx now db).Nodup :=
  db.leases.unique.sublist (List.filter_sublist.map _)

theorem mem_reapedIds {ctx : Ctx} {now : Int} {db : Db} {j : JobId} :
    j ∈ reapedIds ctx now db ↔ ∃ l, db.leases.lookup j = some l ∧ l.expiresAt < now ∧
      db.statusOf j = some .dispatched ∧ ctx.locked j = false := by
  simp only [reapedIds, expiredLeases, List.mem_map, List.mem_filter]
  constructor
  · rintro ⟨l, ⟨hm, hp⟩, rfl⟩
    simp only [Bool.and_eq_true, decide_eq_true_eq, Bool.not_eq_eq_eq_not, Bool.not_true] at hp
    exact ⟨l, Table.lookup_of_mem hm, hp.1.1, hp.1.2, hp.2⟩
  · rintro ⟨l, hl, he, hs, hk⟩
    obtain ⟨hm, rfl⟩ := Table.lookup_eq_some.mp hl
    exact ⟨l, ⟨hm, by simp [he, hs, hk]⟩, rfl⟩

/-- The DELETE and the UPDATE for a list of ids. -/
theorem view_deleteLeases_in (db : Db) (ids : List JobId) (k : JobId) :
    (db.deleteLeases fun l => ids.contains l.jobId).2.view k =
      { db.view k with lease := if k ∈ ids then none else (db.view k).lease } := by
  rw [view_deleteLeases]
  cases hl : (db.view k).lease with
  | none => simp
  | some l =>
    have hlk : l.jobId = k := Table.lookup_key hl
    by_cases hk : k ∈ ids <;> simp [hlk, hk]

theorem view_updateDispatched_in (db : Db) (patch : Db.JobPatch) (ids : List JobId) (k : JobId) :
    (db.updateJobs (fun r => ids.contains r.jobId && r.status = .dispatched) patch).2.view k =
      { db.view k with
        job := if k ∈ ids then (db.view k).patchDispatched patch else (db.view k).job } := by
  rw [view_updateJobs]
  unfold JobView.patchDispatched
  cases hr : (db.view k).job with
  | none => simp
  | some r =>
    have hrk : r.jobId = k := Table.lookup_key hr
    by_cases hk : k ∈ ids <;> simp [hrk, hk]

/-- One transition row for each id: filtered by an id, one row or none. -/
theorem filter_logs (f : JobId → JobTransition) (hf : ∀ id, (f id).jobId = id) {ids : List JobId}
    (hn : ids.Nodup) (k : JobId) :
    (ids.map f).filter (fun t => t.jobId = k) = if k ∈ ids then [f k] else [] := by
  induction ids with
  | nil => rfl
  | cons id rest ih =>
    simp only [List.nodup_cons] at hn
    simp only [List.map_cons, List.filter_cons, hf, ih hn.2, List.mem_cons, decide_eq_true_eq]
    by_cases hk : id = k
    · subst hk
      simp [hn.1]
    · simp [hk, Ne.symm hk]

theorem reaperTx_eq (ctx : Ctx) (now : Int) (db : Db) :
    reaperTx ctx now db =
      if (reapedIds ctx now db).isEmpty then db else
      ((((db.deleteLeases fun l => (reapedIds ctx now db).contains l.jobId).2.updateJobs
          (fun r => (reapedIds ctx now db).contains r.jobId && r.status = .dispatched)
          ⟨.pending, none, ctx.nowMs⟩).2.terminateHistory
        (fun id => (reapedIds ctx now db).contains id) ctx.laterMs).insertJobTransitions
        ((reapedIds ctx now db).map fun id =>
          JobEvent.log ctx id (some .dispatched) .pending)) := rfl

/-- The reaper does the same to every job that it collects, and nothing to the others. -/
theorem reaperTx_view (ctx : Ctx) (now : Int) (db : Db) (k : JobId) :
    (reaperTx ctx now db).view k =
      (db.view k).after k (if k ∈ reapedIds ctx now db then some (.reaped ctx) else none) := by
  have hn := reapedIds_nodup ctx now db
  rw [reaperTx_eq]
  generalize reapedIds ctx now db = ids at hn ⊢
  cases he : ids.isEmpty with
  | true =>
    have hnil : ids = [] := List.isEmpty_iff.mp he
    simp [hnil, JobView.after]
  | false =>
    simp only [Bool.false_eq_true, ↓reduceIte, view_insertJobTransitions, view_terminateHistory,
      view_updateDispatched_in, view_deleteLeases_in]
    rw [filter_logs _ (fun _ => rfl) hn]
    by_cases hk : k ∈ ids <;>
      simp [hk, JobView.after, JobEvent.apply, JobView.terminate, JobView.patchDispatched]

theorem oldest_mem {rows : List Job} {r : Job} (h : oldest rows = some r) : r ∈ rows := by
  induction rows generalizing r with
  | nil => cases h
  | cons q rest ih =>
    simp only [oldest] at h
    cases ho : oldest rest with
    | none => simp_all
    | some p =>
      simp only [ho] at h
      have hp : p ∈ rest := ih ho
      split at h <;> cases h
      · exact List.mem_cons_self
      · exact List.mem_cons_of_mem _ hp

theorem oldest_none {rows : List Job} (h : oldest rows = none) : rows = [] := by
  cases rows with
  | nil => rfl
  | cons q rest =>
    simp only [oldest] at h
    split at h
    · cases h
    · split at h <;> cases h

/-- No row of the queue is older than its head. -/
theorem oldest_le {rows : List Job} {r : Job} (h : oldest rows = some r) :
    ∀ q ∈ rows, r.createdAt ≤ q.createdAt := by
  induction rows generalizing r with
  | nil => cases h
  | cons p rest ih =>
    simp only [oldest] at h
    cases ho : oldest rest with
    | none =>
      have alone : rest = [] := oldest_none ho
      simp only [ho, Option.some.injEq] at h
      simp [alone, h]
    | some p' =>
      have least := ih ho
      simp only [ho] at h
      intro q hq
      split at h <;> cases h <;> rcases List.mem_cons.mp hq with rfl | hq
      · exact Int.le_refl _
      · exact Int.le_trans ‹_› (least q hq)
      · exact Int.le_of_lt (Int.not_le.mp ‹_›)
      · exact least q hq

/-- The row that the dispatcher's SELECT locks. -/
def headOfQueue (ctx : Ctx) (db : Db) : Option Job :=
  oldest (db.jobs.rows.filter fun r => r.status = .pending && !ctx.locked r.jobId)

/-- The SELECT finds a PENDING row that nobody has locked. -/
theorem headOfQueue_spec {ctx : Ctx} {db : Db} {r : Job} (h : headOfQueue ctx db = some r) :
    db.jobs.lookup r.jobId = some r ∧ r.status = .pending ∧ ctx.locked r.jobId = false := by
  have hm := List.mem_filter.mp (oldest_mem h)
  refine ⟨Table.lookup_of_mem hm.1, ?_⟩
  simpa using hm.2

def dispatchedDb (ctx : Ctx) (workerId : WorkerId) (job : Job) (db : Db) : Db :=
  ((({ db with
      fencingSeq := db.fencingSeq + 1
      leases := db.leases.insert
        ⟨job.jobId, workerId, db.fencingSeq + 1, ctx.nowMs + DISPATCH_LEASE_TTL_MS + ctx.skewMs⟩ }
    : Db).updateJobs (fun r => r.jobId = job.jobId) ⟨.dispatched, none, ctx.pgNowMs⟩).2.insertLeaseHistory
    ⟨job.jobId, workerId, db.fencingSeq + 1, ctx.pgClockUs, none⟩).insertJobTransitions
    [JobEvent.log ctx job.jobId (some .pending) .dispatched]

/-- A dispatch finds nothing, or meets a lease and rolls back, or commits. -/
theorem tryDispatchOneTx_eq (ctx : Ctx) (workerId : WorkerId) (db : Db) :
    tryDispatchOneTx ctx workerId db = match headOfQueue ctx db with
      | none => .ok (none, db)
      | some job =>
        if (db.leases.lookup job.jobId).isSome then .error .uniqueViolation
        else .ok (some ⟨job.jobId, db.fencingSeq + 1, job.payload⟩, dispatchedDb ctx workerId job db) := by
  unfold tryDispatchOneTx
  change (match headOfQueue ctx db with | none => _ | some job => _) = _
  cases hq : headOfQueue ctx db with
  | none => rfl
  | some job =>
    have hj := (headOfQueue_spec hq).1
    by_cases hl : (db.leases.lookup job.jobId).isSome
    · simp only [Db.insertLease, hl, ↓reduceIte]
    · simp only [Db.insertLease, hl, hj, Bool.false_eq_true, ↓reduceIte, Option.isNone_some]
      rfl

theorem dispatchedDb_view (ctx : Ctx) (workerId : WorkerId) {job : Job} {db : Db}
    (hl : db.leases.lookup job.jobId = none) (k : JobId) :
    (dispatchedDb ctx workerId job db).view k = (db.view k).after k
      (if k = job.jobId then some (.dispatched ctx workerId (db.fencingSeq + 1)) else none) := by
  have hi := Table.lookup_insert db.leases ⟨job.jobId, workerId, db.fencingSeq + 1,
    ctx.nowMs + DISPATCH_LEASE_TTL_MS + ctx.skewMs⟩ k
  simp only [dispatchedDb, view_insertJobTransitions, view_insertLeaseHistory, view_updateJob]
  by_cases hk : k = job.jobId
  · subst hk
    simp [Db.view, JobView.after, JobEvent.apply, JobEvent.log, hi, hl]
  · simp [Db.view, JobView.after, JobEvent.log, hi, hk, Ne.symm hk]

def dispatchedJob (ctx : Ctx) (db : Db) : Option JobId :=
  match headOfQueue ctx db with
  | some job => if (db.leases.lookup job.jobId).isSome then none else some job.jobId
  | none => none

/-- A dispatch that commits had found its job PENDING and without a lease. -/
theorem dispatchedJob_spec {ctx : Ctx} {db : Db} {k : JobId} (h : dispatchedJob ctx db = some k) :
    db.statusOf k = some .pending ∧ db.leases.lookup k = none ∧ ctx.locked k = false := by
  unfold dispatchedJob at h
  cases hq : headOfQueue ctx db with
  | none => simp [hq] at h
  | some job =>
    obtain ⟨hj, hp, hk⟩ := headOfQueue_spec hq
    simp only [hq, Option.ite_none_left_eq_some, Option.some.injEq] at h
    obtain ⟨hl, rfl⟩ := h
    exact ⟨by simp [Db.statusOf, hj, hp], by simpa using hl, hk⟩

def submitEvent (ctx : Ctx) (key : String) (payload : Json) (db : Db) : Option JobEvent :=
  if (db.jobs.lookup ctx.freshId).isSome || db.jobs.rows.any (fun r => r.idempotencyKey = key) then
    none
  else some (.submitted ctx key payload)

/-- A submission changes no job but the new one. -/
theorem submitTx_view {ctx : Ctx} {key : String} {payload : Json} {db db' : Db} {j : JobId}
    (h : submitTx ctx key payload db = .ok (j, db')) (k : JobId) :
    db'.view k = (db.view k).after k
      (if k = ctx.freshId then submitEvent ctx key payload db else none) := by
  unfold submitTx Db.insertJob at h
  by_cases hi : (db.jobs.lookup ctx.freshId).isSome
  · simp [hi] at h
  by_cases hu : db.jobs.rows.any fun r => r.idempotencyKey = key
  · simp [hi, hu] at h
  simp only [hi, hu, Bool.false_eq_true, ↓reduceIte, Except.ok.injEq, Prod.mk.injEq] at h
  obtain ⟨rfl, rfl⟩ := h
  have hn : db.jobs.lookup ctx.freshId = none := by simpa using hi
  have hr := Table.lookup_insert db.jobs ⟨ctx.freshId, key, payload, .pending, none,
    ctx.pgNowMs, ctx.pgNowMs⟩ k
  simp only [view_insertJobTransitions, submitEvent, hi, hu]
  by_cases hk : k = ctx.freshId
  · subst hk
    simp [Db.view, JobView.after, JobEvent.apply, JobEvent.log, hr, hn]
  · simp [Db.view, JobView.after, hr, hk, Ne.symm hk]

theorem submitTx_error {ctx : Ctx} {key : String} {payload : Json} {db : Db} {e : PgError}
    (h : submitTx ctx key payload db = .error e) : submitEvent ctx key payload db = none := by
  unfold submitTx Db.insertJob at h
  unfold submitEvent
  by_cases hi : (db.jobs.lookup ctx.freshId).isSome
  · simp [hi]
  by_cases hu : db.jobs.rows.any fun r => r.idempotencyKey = key
  · simp [hu]
  · simp [hi, hu] at h

/-- A cancel changes its own job only. -/
theorem cancelTx_view (ctx : Ctx) (jobId : JobId) (db : Db) (k : JobId) :
    (cancelTx ctx jobId db).view k =
      (db.view k).after k (if k = jobId then some (.cancelled ctx) else none) := by
  simp only [cancelTx, view_insertJobTransitions, view_updateJob]
  by_cases hk : k = jobId
  · subst hk
    simp [JobView.after, JobEvent.apply, JobEvent.log]
  · simp [hk, Ne.symm hk, JobView.after]

end Dispatcher
