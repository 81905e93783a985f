import Dispatcher.Lib.Alone
import Dispatcher.Sql.Writes

namespace Dispatcher
open Tables ReadCommitted

/-- What a statement does to the tables when no other transaction is about. -/
def Sql.Does (st : Sql.Stmt) (v : Db) (affected : List Row) (v' : Db) : Prop :=
  ∃ rows ws, rows.Perm (st.scan v) ∧ rows.Pairwise (fun r q => st.before v r q = true) ∧
    Takes sqlMachine st v rows affected ws ∧ sqlMachine.view v ws = v'

/-- What a transaction does from a program point on; `none` where it rolls back. -/
def Prog.Does (p : Prog) (v : Db) (e : Env) (v' : Option Db) (e' : Env) : Prop :=
  ∃ out, Alone sqlMachine p v e out e' ∧ out.map (sqlMachine.view v) = v'

namespace Prog

theorem does_done (v : Db) (e : Env) : Prog.Does done v e (some v) e :=
  ⟨some [], .finish rfl, rfl⟩

/-- A statement whose row violates a constraint ends the transaction. -/
theorem does_throw {p : Prog} {st : Sql.Stmt} {next : List Row → Prog} {v : Db} {e : Env} {r : Row}
    (cmd : p.code = .sql st next) (scan : st.scan v = [r]) (violates : st.violates v r = true) :
    p.Does v e none e :=
  ⟨none, .throws cmd (scan ▸ .refl _) (List.pairwise_singleton _ _) (.here violates), rfl⟩

theorem does_call {p : Prog} {f : Env → Env × Prog} {v : Db} {v' : Option Db} {e e' : Env}
    (cmd : p.code = .call f) (rest : (f e).2.Does v (f e).1 v' e') : p.Does v e v' e' := by
  obtain ⟨out, alone, view⟩ := rest
  exact ⟨out, .call cmd alone, view⟩

/-- A transaction is its next statement and the rest. -/
theorem does_sql {p : Prog} {st : Sql.Stmt} {next : List Row → Prog} {v v₁ : Db} {v' : Option Db}
    {e e' : Env} {affected : List Row} (cmd : p.code = .sql st next)
    (does : Sql.Does st v affected v₁) (rest : (next affected).Does v₁ e v' e') : p.Does v e v' e' := by
  obtain ⟨rows, ws, perm, sorted, takes, rfl⟩ := does
  obtain ⟨out, alone, rfl⟩ := rest
  refine ⟨_, .sql cmd perm sorted takes alone, ?_⟩
  rw [Option.map_map]
  congr 1
  funext ws'
  exact Machine.view_append _ _ _ _

end Prog

namespace Sql

theorem insert_does (ws : List Write) (v : Db) :
    Sql.Does (insert ws) v [.new] (sqlMachine.view v ws) :=
  ⟨[.new], ws ++ [], .refl _, List.pairwise_singleton _ _, .taken rfl rfl rfl .nil,
    by rw [List.append_nil]⟩

theorem advisoryLock_does (v : Db) : Sql.Does advisoryLock v [.new] v :=
  ⟨[.new], [], .refl _, List.pairwise_singleton _ _, .taken rfl rfl rfl .nil, rfl⟩

theorem insertJob_does {row : Job} {v v' : Db} (h : v.insertJob row = .ok v') :
    Sql.Does (insertJob row) v [.new] v' := by
  simp only [Db.insertJob] at h
  split at h
  · cases h
  rename_i fresh
  split at h
  · cases h
  rename_i other
  cases h
  have clean : (insertJob row).violates v .new = false := by
    simp only [insertJob]
    simp [fresh, other]
  exact ⟨[.new], [.insertJob row] ++ [], .refl _, List.pairwise_singleton _ _,
    .taken rfl clean rfl .nil, rfl⟩

theorem insertLease_does {row : Lease} {v v' : Db} (h : v.insertLease row = .ok v') :
    Sql.Does (insertLease row) v [.new] v' := by
  simp only [Db.insertLease] at h
  split at h
  · cases h
  rename_i fresh
  split at h
  · cases h
  rename_i there
  cases h
  have clean : (insertLease row).violates v .new = false := by
    simp only [insertLease]
    simp [fresh, there]
  exact ⟨[.new], [.insertLease row] ++ [], .refl _, List.pairwise_singleton _ _,
    .taken rfl clean rfl .nil, rfl⟩

/-- One UPDATE of several jobs is as good as one for each of them. -/
theorem view_patches (patch : Db.JobPatch) {ks : List JobId} (distinct : ks.Nodup) (v : Db) :
    sqlMachine.view v (ks.map fun k => .patchJob k patch) =
      (v.updateJobs (fun r => decide (r.jobId ∈ ks)) patch).2 := by
  induction ks generalizing v with
  | nil =>
    have none : v.jobs.update (fun r => decide (r.jobId ∈ ([] : List JobId))) patch.on
        (fun _ => rfl) = v.jobs := Table.update_eq_self (by simp)
    simp only [Db.updateJobs, none]
    rfl
  | cons k rest ih =>
    obtain ⟨first, distinct⟩ := List.nodup_cons.mp distinct
    rw [List.map_cons, Machine.view_cons, ih distinct]
    have both := Table.update_cons v.jobs (f := patch.on) (fun _ => rfl) first
    simp only [Db.updateJobs, sqlMachine_apply, Write.apply, both]

theorem view_deletes (ks : List JobId) (v : Db) :
    sqlMachine.view v (ks.map Write.deleteLease) =
      (v.deleteLeases fun l => decide (l.jobId ∈ ks)).2 := by
  induction ks generalizing v with
  | nil =>
    have none : v.leases.delete (fun l => decide (l.jobId ∈ ([] : List JobId))) = v.leases :=
      Table.delete_eq_self (by simp)
    simp only [Db.deleteLeases, none]
    rfl
  | cons k rest ih =>
    rw [List.map_cons, Machine.view_cons, ih]
    have both := Table.delete_cons v.leases k rest
    simp only [Db.deleteLeases, sqlMachine_apply, Write.apply, both]

theorem view_extends (expiresAt : Int) {ks : List JobId} (distinct : ks.Nodup) (v : Db) :
    sqlMachine.view v (ks.map fun k => .extendLease k expiresAt) =
      v.updateLeases (fun l => decide (l.jobId ∈ ks)) expiresAt := by
  induction ks generalizing v with
  | nil =>
    have none : v.leases.update (fun l => decide (l.jobId ∈ ([] : List JobId)))
        (fun l => { l with expiresAt }) (fun _ => rfl) = v.leases := Table.update_eq_self (by simp)
    simp only [Db.updateLeases, none]
    rfl
  | cons k rest ih =>
    obtain ⟨first, distinct⟩ := List.nodup_cons.mp distinct
    rw [List.map_cons, Machine.view_cons, ih distinct]
    have both := Table.update_cons v.leases (f := fun l => { l with expiresAt }) (fun _ => rfl) first
    simp only [Db.updateLeases, sqlMachine_apply, Write.apply, both]

section keyed

variable {ρ : Type} {key : ρ → JobId} {t : Table ρ JobId key} {p : ρ → Bool} {g : ρ → Row}

theorem keys_distinct : ((t.rows.filter p).map key).Nodup :=
  t.unique.sublist (List.filter_sublist.map _)

/-- The rows before one of a table's rows have other keys. -/
theorem keys_before {pre post : List Row} {r : Row}
    (h : (t.rows.filter p).map g = pre ++ r :: post) :
    ∃ (earlier : List ρ) (q : ρ), pre = earlier.map g ∧ r = g q ∧ q ∈ t.rows ∧ p q = true ∧
      key q ∉ earlier.map key := by
  obtain ⟨earlier, later, hl, rfl, ht⟩ := List.map_eq_append_iff.mp h
  obtain ⟨q, rest, rfl, rfl, _⟩ := List.map_eq_cons_iff.mp ht
  obtain ⟨hq, hp⟩ := List.mem_filter.mp (hl ▸ List.mem_append_right _ List.mem_cons_self)
  have distinct : ((t.rows.filter p).map key).Nodup := keys_distinct
  rw [hl, List.map_append, List.map_cons, List.nodup_append] at distinct
  refine ⟨earlier, q, rfl, rfl, hq, hp, ?_⟩
  intro hm
  exact distinct.2.2 _ hm _ List.mem_cons_self rfl

/-- Where the rows have a lock each, what a statement writes for some leaves the others
as its snapshot showed them. -/
theorem keyed_takes (lock : JobId → Lock) {st : Stmt} {v : Db} (many : st.single = false)
    (clean : ∀ v r, st.violates v r = false) (apart : Function.Injective lock)
    (touched : ∀ q, ∀ w ∈ st.writes (g q), w.lock = some (lock (key q)))
    (fits : ∀ q ∈ t.rows, p q = true → ∀ v', (lock (key q)).Agree v v' →
      st.recheck v' (g q) = true) :
    Takes sqlMachine st v ((t.rows.filter p).map g) ((t.rows.filter p).map g)
      (((t.rows.filter p).map g).flatMap st.writes) := by
  apply takes_all many
  intro pre r post hl
  obtain ⟨earlier, q, rfl, rfl, hq, hp, other⟩ := keys_before hl
  refine ⟨clean _ _, fits q hq hp _ ?_⟩
  apply sqlProtection.view
  intro w hw same
  obtain ⟨r, hr, hw⟩ := List.mem_flatMap.mp hw
  obtain ⟨i, hi, rfl⟩ := List.mem_map.mp hr
  have keys : key i = key q := apart (Option.some.inj ((touched i w hw).symm.trans same))
  exact other (keys ▸ List.mem_map_of_mem hi)

end keyed

theorem updateJobs_does (p : Job → Bool) (patch : Db.JobPatch) (v : Db) :
    Sql.Does (updateJobs p patch) v ((updateJobs p patch).scan v) (v.updateJobs p patch).2 := by
  refine ⟨_, _, .refl _, List.pairwise_of_forall fun _ _ => rfl,
    keyed_takes .job rfl (fun _ _ => rfl) (fun _ _ => Lock.job.inj) ?_ ?_, ?_⟩
  · intro q w hw
    cases List.mem_singleton.mp hw
    rfl
  · intro q hq hp v' same
    refine (congrArg (Option.any p) same).trans ?_
    rw [Table.lookup_of_mem hq]
    exact hp
  · have writes : ((updateJobs p patch).scan v).flatMap (updateJobs p patch).writes =
        ((v.jobs.rows.filter p).map Job.jobId).map fun k => .patchJob k patch := by
      rw [List.map_map, List.map_eq_flatMap, updateJobs, List.flatMap_map]
      rfl
    have same := Table.update_congr (f := patch.on) (fun _ => rfl)
      (fun r hr => Table.key_selected (p := p) (t := v.jobs) hr)
    have view := view_patches patch (keys_distinct (t := v.jobs) (p := p)) v
    simp only [Db.updateJobs, same] at view
    exact (congrArg (sqlMachine.view v) writes).trans view

theorem deleteLeases_does (p : Lease → Bool) (v : Db) :
    Sql.Does (deleteLeases p) v ((deleteLeases p).scan v) (v.deleteLeases p).2 := by
  refine ⟨_, _, .refl _, List.pairwise_of_forall fun _ _ => rfl,
    keyed_takes .lease rfl (fun _ _ => rfl) (fun _ _ => Lock.lease.inj) ?_ ?_, ?_⟩
  · intro q w hw
    cases List.mem_singleton.mp hw
    rfl
  · intro q hq hp v' same
    refine (congrArg (Option.any fun l : Lease => decide (l.token = q.token) && p l) same).trans ?_
    rw [Table.lookup_of_mem hq]
    simp [hp]
  · have writes : ((deleteLeases p).scan v).flatMap (deleteLeases p).writes =
        ((v.leases.rows.filter p).map Lease.jobId).map Write.deleteLease := by
      rw [List.map_map, List.map_eq_flatMap, deleteLeases, List.flatMap_map]
      rfl
    have same := Table.delete_congr (fun r hr => Table.key_selected (p := p) (t := v.leases) hr)
    have view := view_deletes ((v.leases.rows.filter p).map Lease.jobId) v
    simp only [Db.deleteLeases, same] at view
    exact (congrArg (sqlMachine.view v) writes).trans view

theorem updateJobs_misses {p : Job → Bool} {v : Db} (h : v.jobs.count p = 0) (patch : Db.JobPatch) :
    Sql.Does (updateJobs p patch) v [] v := by
  have does := updateJobs_does p patch v
  have nothing : (updateJobs p patch).scan v = [] :=
    List.map_eq_nil_iff.mpr (List.length_eq_zero_iff.mp h)
  rwa [nothing, updateJobs_none h] at does

theorem updateJobs_hits {p : Job → Bool} {v : Db} (h : v.jobs.count p ≠ 0) (patch : Db.JobPatch) :
    ¬((updateJobs p patch).scan v).isEmpty = true := by
  simpa [updateJobs, List.isEmpty_iff, Table.count] using h

theorem deleteLeases_misses {p : Lease → Bool} {v : Db} (h : v.leases.count p = 0) :
    Sql.Does (deleteLeases p) v [] v := by
  have does := deleteLeases_does p v
  have nothing : (deleteLeases p).scan v = [] :=
    List.map_eq_nil_iff.mpr (List.length_eq_zero_iff.mp h)
  rwa [nothing, deleteLeases_none h] at does

theorem deleteLeases_hits {p : Lease → Bool} {v : Db} (h : v.leases.count p ≠ 0) :
    ¬((deleteLeases p).scan v).isEmpty = true := by
  simpa [deleteLeases, List.isEmpty_iff, Table.count] using h

theorem updateLeases_does (p : Lease → Bool) (expiresAt : Int) (v : Db) :
    Sql.Does (updateLeases p expiresAt) v ((updateLeases p expiresAt).scan v)
      (v.updateLeases p expiresAt) := by
  refine ⟨_, _, .refl _, List.pairwise_of_forall fun _ _ => rfl,
    keyed_takes .lease rfl (fun _ _ => rfl) (fun _ _ => Lock.lease.inj) ?_ ?_, ?_⟩
  · intro q w hw
    cases List.mem_singleton.mp hw
    rfl
  · intro q hq hp v' same
    refine (congrArg (Option.any fun l : Lease => decide (l.token = q.token) && p l) same).trans ?_
    rw [Table.lookup_of_mem hq]
    simp [hp]
  · have writes : ((updateLeases p expiresAt).scan v).flatMap (updateLeases p expiresAt).writes =
        ((v.leases.rows.filter p).map Lease.jobId).map fun k => .extendLease k expiresAt := by
      rw [List.map_map, List.map_eq_flatMap, updateLeases, deleteLeases, List.flatMap_map]
      rfl
    have same := Table.update_congr (f := fun l : Lease => { l with expiresAt }) (fun _ => rfl)
      (fun r hr => Table.key_selected (p := p) (t := v.leases) hr)
    have view := view_extends expiresAt (keys_distinct (t := v.leases) (p := p)) v
    simp only [Db.updateLeases, same] at view
    exact (congrArg (sqlMachine.view v) writes).trans view

/-- The rows that the reaper finds are those it locks. -/
theorem selectExpired_does (now : Int) (lockJobs : Bool) (v : Db) :
    Sql.Does (selectExpired now lockJobs) v ((selectExpired now lockJobs).scan v) v := by
  refine ⟨_, _, .refl _, List.pairwise_of_forall fun _ _ => rfl, takes_all rfl ?_, ?_⟩
  · intro pre r post hl
    have hr : r ∈ (selectExpired now lockJobs).scan v :=
      hl ▸ List.mem_append_right _ List.mem_cons_self
    obtain ⟨l, hm, rfl⟩ := List.mem_map.mp hr
    obtain ⟨hm, expired⟩ := List.mem_filter.mp hm
    simp only [Bool.and_eq_true, decide_eq_true_eq] at expired
    have nothing : pre.flatMap (selectExpired now lockJobs).writes = [] :=
      List.flatMap_eq_nil_iff.mpr fun _ _ => rfl
    rw [nothing]
    refine ⟨rfl, ?_⟩
    simp [selectExpired, Table.lookup_of_mem hm, expired.1, expired.2]
  · have nothing : ((selectExpired now lockJobs).scan v).flatMap
        (selectExpired now lockJobs).writes = [] := List.flatMap_eq_nil_iff.mpr fun _ _ => rfl
    rw [nothing]
    rfl

theorem selectPending_none {v : Db}
    (h : oldest (v.jobs.rows.filter fun r => r.status = .pending) = none) :
    Sql.Does selectPending v [] v := by
  have empty : (v.jobs.rows.filter fun r => r.status = .pending) = [] := oldest_none h
  refine ⟨[], [], ?_, .nil, .nil, rfl⟩
  simp only [selectPending, empty]
  exact .refl _

/-- ORDER BY CreatedAt LIMIT 1. -/
theorem selectPending_does {v : Db} {job : Job}
    (h : oldest (v.jobs.rows.filter fun r => r.status = .pending) = some job) :
    Sql.Does selectPending v [.job job.jobId] v := by
  have mem := oldest_mem h
  have least := oldest_le h
  obtain ⟨pre, post, hl⟩ := List.append_of_mem mem
  let le : Job → Job → Bool := fun r q => r.createdAt ≤ q.createdAt
  have perm : (job :: (pre ++ post).mergeSort le).Perm
      (v.jobs.rows.filter fun r => r.status = .pending) := by
    rw [hl]
    exact ((List.mergeSort_perm _ le).cons job).trans List.perm_middle.symm
  have rest : ((pre ++ post).mergeSort le).Pairwise fun r q => le r q = true := by
    apply List.pairwise_mergeSort
    · intro a b c hab hbc
      simp only [le, decide_eq_true_eq] at hab hbc ⊢
      exact Int.le_trans hab hbc
    · intro a b
      simp only [le, Bool.or_eq_true, decide_eq_true_eq]
      exact Int.le_total _ _
  have sorted : (job :: (pre ++ post).mergeSort le).Pairwise fun r q => le r q = true := by
    refine List.pairwise_cons.mpr ⟨?_, rest⟩
    intro q hq
    exact decide_eq_true (least q (perm.subset (List.mem_cons_of_mem _ hq)))
  have there : ∀ r ∈ job :: (pre ++ post).mergeSort le, v.jobs.lookup r.jobId = some r := by
    intro r hr
    exact Table.lookup_of_mem (List.mem_of_mem_filter (perm.subset hr))
  refine ⟨(job :: (pre ++ post).mergeSort le).map fun r => .job r.jobId, _, perm.map _, ?_,
    .first rfl rfl ?_, rfl⟩
  · rw [List.pairwise_map]
    refine sorted.imp_of_mem ?_
    intro r q hr hq before
    simpa [selectPending, there r hr, there q hq, le] using before
  · have pending := (List.mem_filter.mp mem).2
    have found := there job List.mem_cons_self
    simpa [selectPending, Db.statusOf, found] using pending

/-- Terminating the rows of one of the jobs first makes no difference. -/
theorem terminate_one {p : JobId → Bool} {h : LeaseHistory} (hj : p h.jobId = true) (atMs : Int) :
    h.terminate (· = h.jobId) atMs = h.terminate p atMs := by
  simp [LeaseHistory.terminate, hj]

theorem terminate_twice {p : JobId → Bool} {h : LeaseHistory} (atMs : Int) :
    (h.terminate p atMs).terminate p atMs = h.terminate p atMs := by
  cases opened : p h.jobId && h.terminatedAtMs.isNone with
  | true => simp [LeaseHistory.terminate, opened]
  | false => simp only [LeaseHistory.terminate, opened, Bool.false_eq_true, ↓reduceIte]

theorem terminate_fence (p : JobId → Bool) (atMs : Int) (h : LeaseHistory) :
    (h.terminate p atMs).fence = h.fence := by
  unfold LeaseHistory.terminate
  split <;> rfl

/-- Terminating row by row: those of the list that are still open. -/
theorem terminates_does (p : JobId → Bool) (atMs : Int) {rows : List Row}
    (mine : ∀ r ∈ rows, ∃ j fence, r = .history j fence ∧ p j = true) (v : Db) :
    ∃ affected ws, Takes sqlMachine (terminateHistory p atMs) v rows affected ws ∧
      sqlMachine.view v ws = { v with leaseHistory := v.leaseHistory.map fun (h : LeaseHistory) =>
        if (Row.history h.jobId h.fence) ∈ rows then h.terminate p atMs else h } := by
  induction rows generalizing v with
  | nil => exact ⟨[], [], .nil, by simp⟩
  | cons r rest ih =>
    obtain ⟨j, fence, rfl, hj⟩ := mine r List.mem_cons_self
    have later := fun q hq => mine q (List.mem_cons_of_mem _ hq)
    cases fits : (terminateHistory p atMs).recheck v (.history j fence) with
    | true =>
      obtain ⟨affected, ws, takes, view⟩ := ih later ((Write.terminate j fence atMs).apply v)
      refine ⟨_, _, .taken rfl rfl fits takes, ?_⟩
      change sqlMachine.view (sqlMachine.view v [.terminate j fence atMs]) ws = _
      rw [show sqlMachine.view v [.terminate j fence atMs] =
        (Write.terminate j fence atMs).apply v from rfl, view]
      simp only [Write.apply, List.map_map, Db.mk.injEq, true_and, and_true]
      apply List.map_congr_left
      intro h _
      by_cases this : h.jobId = j ∧ h.fence = fence
      · obtain ⟨rfl, rfl⟩ := this
        have first := terminate_one hj atMs
        simp only [Function.comp_apply, ↓reduceIte, first, LeaseHistory.terminate_jobId,
          terminate_fence, terminate_twice, List.mem_cons_self, ite_self]
      · have other : Row.history h.jobId h.fence ≠ .history j fence := by
          intro he
          cases he
          exact this ⟨rfl, rfl⟩
        have kept : (if h.fence = fence then h.terminate (· = j) atMs else h) = h := by
          split
          · rename_i hf
            have hk : h.jobId ≠ j := fun hk => this ⟨hk, hf⟩
            simp [LeaseHistory.terminate, hk]
          · rfl
        simp only [Function.comp_apply, kept, List.mem_cons, other, false_or]
    | false =>
      obtain ⟨affected, ws, takes, view⟩ := ih later v
      refine ⟨affected, ws, .passed rfl fits takes, ?_⟩
      rw [view]
      simp only [Db.mk.injEq, true_and, and_true]
      apply List.map_congr_left
      intro h hm
      by_cases this : h.jobId = j ∧ h.fence = fence
      · obtain ⟨rfl, rfl⟩ := this
        have closed : h.terminatedAtMs.isNone = false := by
          have gone := List.any_eq_false.mp fits h hm
          simpa only [decide_true, hj, Bool.true_and, Bool.not_eq_true] using gone
        simp [LeaseHistory.terminate, closed]
      · have other : Row.history h.jobId h.fence ≠ .history j fence := by
          intro he
          cases he
          exact this ⟨rfl, rfl⟩
        simp [other]

theorem terminateHistory_does (p : JobId → Bool) (atMs : Int) (v : Db) :
    ∃ affected, Sql.Does (terminateHistory p atMs) v affected (v.terminateHistory p atMs) := by
  have mine : ∀ r ∈ (terminateHistory p atMs).scan v,
      ∃ j fence, r = .history j fence ∧ p j = true := by
    intro r hr
    obtain ⟨h, hm, rfl⟩ := List.mem_map.mp hr
    have hp := (List.mem_filter.mp hm).2
    rw [Bool.and_eq_true] at hp
    exact ⟨h.jobId, h.fence, rfl, hp.1⟩
  obtain ⟨affected, ws, takes, view⟩ := terminates_does p atMs mine v
  refine ⟨affected, _, ws, .refl _, List.pairwise_of_forall fun _ _ => rfl, takes, ?_⟩
  rw [view]
  simp only [Db.terminateHistory, Db.mk.injEq, true_and, and_true]
  apply List.map_congr_left
  intro h hm
  split
  · rfl
  rename_i unlisted
  -- a row that the scan does not list is closed or not of these jobs
  have kept : (p h.jobId && h.terminatedAtMs.isNone) = false := by
    cases hp : p h.jobId && h.terminatedAtMs.isNone with
    | false => rfl
    | true => exact absurd (List.mem_map.mpr ⟨h, List.mem_filter.mpr ⟨hm, hp⟩, rfl⟩) unlisted
  simp [LeaseHistory.terminate, kept]

end Sql

end Dispatcher
