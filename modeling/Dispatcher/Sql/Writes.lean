import Dispatcher.Job.Refinement
import Dispatcher.Sql.Locking
import Mathlib.Data.List.Induction

namespace Dispatcher
open Tables ReadCommitted

namespace Write

/-- The one job that a write is about. -/
def subject : Write → JobId
  | insertJob row => row.jobId
  | patchJob j _ => j
  | insertLease row => row.jobId
  | extendLease j _ => j
  | deleteLease j => j
  | insertHistory row => row.jobId
  | terminate j _ _ => j
  | insertTransition row => row.jobId
  | insertCommit row => row.jobId

def on (v : JobView) : Write → JobView
  | insertJob row => { v with job := some (v.job.getD row) }
  | patchJob _ patch => { v with job := v.job.map patch.on }
  | insertLease row => { v with lease := some (v.lease.getD row) }
  | extendLease _ expiresAt => { v with lease := v.lease.map fun l => { l with expiresAt } }
  | deleteLease _ => { v with lease := none }
  | insertHistory row => { v with history := v.history ++ [row] }
  | terminate _ fence atMs =>
    { v with history := v.history.map fun h =>
        if h.fence = fence then h.terminate (fun _ => true) atMs else h }
  | insertTransition row => { v with transitions := v.transitions ++ [row] }
  | insertCommit row => { v with commits := v.commits ++ [row] }

end Write

theorem view_terminate (db : Db) (j : JobId) (fence : Token) (atMs : Int) (k : JobId) :
    ((Write.terminate j fence atMs).apply db).view k =
      if j = k then Write.on (db.view k) (.terminate j fence atMs) else db.view k := by
  have filtered : (db.leaseHistory.map fun h =>
      if h.fence = fence then h.terminate (· = j) atMs else h).filter (fun h => h.jobId = k) =
      (db.leaseHistory.filter fun h => h.jobId = k).map fun h =>
        if h.fence = fence then h.terminate (· = j) atMs else h := by
    rw [List.filter_map]
    congr 1
    apply List.filter_congr
    intro h _
    simp only [Function.comp_apply]
    split <;> simp [LeaseHistory.terminate_jobId]
  by_cases hj : j = k
  · subst hj
    simp only [Write.apply, Write.on, Db.view, filtered, ↓reduceIte, JobView.mk.injEq, true_and,
      and_true]
    apply List.map_congr_left
    intro h hm
    have hk : h.jobId = j := by simpa using (List.mem_filter.mp hm).2
    simp [LeaseHistory.terminate, hk]
  · simp only [Write.apply, Db.view, filtered, hj, ↓reduceIte, JobView.mk.injEq, true_and, and_true]
    conv_rhs => rw [← List.map_id (List.filter _ _)]
    apply List.map_congr_left
    intro h hm
    have hk : h.jobId = k := by simpa using (List.mem_filter.mp hm).2
    simp [LeaseHistory.terminate, hk, Ne.symm hj]

/-- A write changes what the tables say about its own job. -/
theorem apply_view (w : Write) (db : Db) (k : JobId) :
    (w.apply db).view k = if w.subject = k then w.on (db.view k) else db.view k := by
  cases w with
  | insertJob row =>
    by_cases hk : row.jobId = k <;>
      simp [Write.apply, Write.on, Write.subject, Db.view, Table.lookup_insert, hk]
  | insertLease row =>
    by_cases hk : row.jobId = k <;>
      simp [Write.apply, Write.on, Write.subject, Db.view, Table.lookup_insert, hk]
  | patchJob j patch =>
    rw [Write.apply, view_updateJob]
    by_cases hk : k = j <;> simp [Write.on, Write.subject, hk, eq_comm]
  | extendLease j expiresAt =>
    rw [Write.apply, view_updateLeases]
    by_cases hk : k = j
    · subst hk
      cases hl : (db.view k).lease with
      | none => simp [Write.on, Write.subject, hl]
      | some l =>
        have key : l.jobId = k := Table.lookup_key hl
        simp [Write.on, Write.subject, hl, key]
    · rw [map_lease_other (j := j) (by simp) hk]
      simp [Write.subject, Ne.symm hk]
  | deleteLease j =>
    rw [Write.apply, view_deleteLease]
    by_cases hk : k = j <;> simp [Write.on, Write.subject, hk, eq_comm]
  | insertHistory row =>
    rw [Write.apply, view_insertLeaseHistory]
    by_cases hk : row.jobId = k <;> simp [Write.on, Write.subject, hk]
  | terminate j fence atMs => exact view_terminate db j fence atMs k
  | insertTransition row =>
    rw [Write.apply, view_insertJobTransitions]
    by_cases hk : row.jobId = k <;> simp [Write.on, Write.subject, hk]
  | insertCommit row =>
    rw [Write.apply, view_insertCommitAttempt]
    by_cases hk : row.jobId = k <;> simp [Write.on, Write.subject, hk]

variable {ws : List Write} {db : Db} {j : JobId}

@[simp] theorem sqlMachine_apply : sqlMachine.apply = Write.apply := rfl

theorem deleteLeases_recheck {p : Lease → Bool} {r : Row}
    (h : (Sql.deleteLeases p).recheck db r = true) :
    ∃ l, r = .lease l.jobId l.token ∧ db.leases.lookup l.jobId = some l ∧ p l = true := by
  cases r with
  | lease i token =>
    obtain ⟨l, hl, ht⟩ := (Option.any_eq_true _ _).mp h
    have key : l.jobId = i := Table.lookup_key hl
    simp only [Bool.and_eq_true, decide_eq_true_eq] at ht
    exact ⟨l, by rw [key, ht.1], key ▸ hl, ht.2⟩
  | _ => cases h

theorem updateJobs_recheck {p : Job → Bool} {patch : Db.JobPatch} {r : Row}
    (h : (Sql.updateJobs p patch).recheck db r = true) :
    ∃ q, r = .job q.jobId ∧ db.jobs.lookup q.jobId = some q ∧ p q = true := by
  cases r with
  | job i =>
    obtain ⟨q, hq, hp⟩ := (Option.any_eq_true _ _).mp h
    have key : q.jobId = i := Table.lookup_key hq
    exact ⟨q, by rw [key], key ▸ hq, hp⟩
  | _ => cases h

theorem view_snoc (ws : List Write) (w : Write) (db : Db) (j : JobId) :
    (sqlMachine.view db (ws ++ [w])).view j =
      if w.subject = j then w.on ((sqlMachine.view db ws).view j)
      else (sqlMachine.view db ws).view j := by
  rw [Machine.view_append]
  exact apply_view w _ j

theorem view_untouched (h : ∀ w ∈ ws, w.subject ≠ j) :
    (sqlMachine.view db ws).view j = db.view j := by
  induction ws using List.reverseRecOn with
  | nil => rfl
  | append_singleton ws w ih =>
    have other : w.subject ≠ j := h w (List.mem_append_right _ List.mem_cons_self)
    rw [view_snoc, if_neg other]
    exact ih fun v hv => h v (List.mem_append_left _ hv)

/-- The lease of a job is gone once a transaction has deleted it. -/
theorem view_cleared (deleted : .deleteLease j ∈ ws) (only : ∀ row, .insertLease row ∉ ws) :
    ((sqlMachine.view db ws).view j).lease = none := by
  induction ws using List.reverseRecOn with
  | nil => cases deleted
  | append_singleton ws w ih =>
    rw [view_snoc]
    have before : .deleteLease j ∈ ws → ((sqlMachine.view db ws).view j).lease = none := by
      intro hd
      exact ih hd fun row hr => only row (List.mem_append_left _ hr)
    rcases List.mem_append.mp deleted with hd | hd
    · have gone := before hd
      cases w with
      | insertLease row => exact absurd (List.mem_append_right _ List.mem_cons_self) (only row)
      | _ => split <;> simp [Write.on, gone]
    · cases List.mem_singleton.mp hd
      simp [Write.subject, Write.on]

end Dispatcher
