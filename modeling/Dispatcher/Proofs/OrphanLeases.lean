import Dispatcher.Proofs.StatusChanges

namespace Dispatcher
open Tables Runs

/-- Every lease is one the reaper can find: its job is DISPATCHED. -/
def Db.NoOrphan (db : Db) : Prop :=
  ∀ l ∈ db.leases.rows, db.statusOf l.jobId = some .dispatched

/-- The cancel transaction, if the step runs one, does not meet a job that was
dispatched since its status was read. -/
def CancelsUndispatched (e : Event Cluster Action) : Prop :=
  ∀ j, e.before.cancels e.action = some j → e.before.db.statusOf j ≠ some .dispatched

def JobView.Leased (v : JobView) : Prop := v.lease.isSome → v.status = some .dispatched

/-- No lease is an orphan exactly if every job with a lease is DISPATCHED. -/
theorem noOrphan_iff {db : Db} : db.NoOrphan ↔ ∀ j, (db.view j).Leased := by
  constructor
  · intro h j hl
    obtain ⟨l, hl⟩ := Option.isSome_iff_exists.mp hl
    obtain ⟨hm, rfl⟩ := Table.lookup_eq_some.mp hl
    exact h l hm
  · intro h l hm
    refine h l.jobId ?_
    exact Table.lookup_isSome_of_mem hm

/-- Every event but the cancel of a dispatched job leaves no lease behind. -/
theorem apply_leased {n : Nat} {v : JobView} {j : JobId} {e : JobEvent} (he : e.Enabled n v)
    (h : v.Leased) (hc : ∀ ctx, e = .cancelled ctx → v.status ≠ some .dispatched) :
    (e.apply j v).Leased := by
  intro hl
  cases e with
  | submitted ctx key payload =>
    have hd := h hl
    have hj : v.job = none := he
    simp [JobView.status, hj] at hd
  | dispatched ctx w t =>
    obtain ⟨r, hr, _⟩ := Option.map_eq_some_iff.mp he.1
    simp [JobEvent.apply, JobView.status, hr, Db.JobPatch.on]
  | accepted | discarded | requeued | failed | reaped => cases hl
  | cancelled ctx =>
    have hd := h hl
    exact absurd hd (hc ctx rfl)
  | extended expiresAt =>
    refine h ?_
    simpa [JobEvent.apply] using hl

namespace Cluster

/-- Nothing but an overtaken cancel makes an orphan. -/
theorem leased_step {s s' : Cluster} {a : Action} (h : step s a = some s')
    (ok : CancelsUndispatched ⟨s, a, s'⟩) (hs : ∀ j, (s.db.view j).Leased) :
    ∀ j, (s'.db.view j).Leased := by
  intro j
  rw [step_view h j]
  cases he : s.event a j with
  | none => exact hs j
  | some e =>
    refine apply_leased (step_enabled he) (hs j) ?_
    rintro ctx rfl
    exact ok j (cancels_event.mpr ⟨ctx, he⟩)

/-- A cancel of a dispatched job keeps the lease and loses the status. -/
theorem orphan_of_cancel {s s' : Cluster} {a : Action} {j : JobId} (known : Reachable step init s)
    (h : step s a = some s') (hc : s.cancels a = some j)
    (hd : s.db.statusOf j = some .dispatched) : ¬ s'.db.NoOrphan := by
  intro hn
  have lease := (consistent_reachable known j).dispatched hd
  have status := cancels_status (found_reachable known) h hc
  obtain ⟨ctx, he⟩ := cancels_event.mp hc
  have hv := step_view h j
  rw [he] at hv
  have kept : (s'.db.view j).lease.isSome := by
    rw [hv]
    exact lease
  have hs := noOrphan_iff.mp hn j kept
  rw [Db.view_status, status] at hs
  cases hs

/-- No lease outlives its job's DISPATCHED status in exactly the runs whose
cancel transactions never meet a dispatched job. -/
theorem no_orphan_iff {es : List (Event Cluster Action)} {s : Cluster} (h : Run step init es s) :
    (∀ e ∈ es, e.after.db.NoOrphan) ↔ ∀ e ∈ es, CancelsUndispatched e := by
  constructor
  · intro hn e he j hc hd
    obtain ⟨known, taken⟩ := h.event he
    exact orphan_of_cancel known taken hc hd (hn e he)
  · intro ok e he
    have start : ∀ j, (init.db.view j).Leased := fun j hl => by cases hl
    have kept : ∀ s a t, (∀ j, (s.db.view j).Leased) → step s a = some t →
        CancelsUndispatched ⟨s, a, t⟩ → ∀ j, (t.db.view j).Leased :=
      fun s a t hs taken hok => leased_step taken hok hs
    exact noOrphan_iff.mpr (h.guarded_events ok start kept e he).2

/-- A cancel whose status check is overtaken by a dispatch on another coordinator. -/
def orphanRun : List Action :=
  [.post "c1" (some (.str "k")) (some (.obj [])), .resume 0 (.quiet "c1" 1), .resume 0 (.quiet "c1" 1),
    .delete "c2" 1, .resume 0 (.quiet "c2" 2), .dispatchTick "c1" "w1", .resume 1 (.quiet "c1" 3),
    .resume 0 (.quiet "c2" 4)]

theorem orphanRun_orphan : ∃ s, Reachable step init s ∧ ¬ s.db.NoOrphan := by
  obtain ⟨s, hs, hp⟩ : ∃ s, exec step init orphanRun = some s ∧
      decide (s.db.leases.rows.map Lease.jobId = [1] ∧ s.db.statusOf 1 = some .cancelled) = true :=
    exec_any (by decide)
  obtain ⟨hl, hc⟩ := of_decide_eq_true hp
  refine ⟨s, reachable_of_exec orphanRun hs, ?_⟩
  intro hn
  obtain ⟨l, hm, hj⟩ := List.mem_map.mp (hl ▸ List.mem_singleton.mpr rfl :
    (1 : JobId) ∈ s.db.leases.rows.map Lease.jobId)
  have hd := hn l hm
  rw [hj, hc] at hd
  cases hd

theorem no_orphan_resultRun : ∃ s, Run step init (trace step init resultRun) s ∧
    ∀ e ∈ trace step init resultRun, e.after.db.NoOrphan := by
  obtain ⟨s, hs, _⟩ : ∃ s, exec step init resultRun = some s ∧ true = true :=
    exec_any (by decide)
  have run := run_of_exec resultRun hs
  refine ⟨s, run, (no_orphan_iff run).mpr ?_⟩
  have none : (trace step init resultRun).all (fun e => (e.before.cancels e.action).isNone) = true := by
    decide
  intro e he j hc
  have hn := List.all_eq_true.mp none e he
  rw [hc] at hn
  cases hn

end Cluster

end Dispatcher
