import Dispatcher.Cluster.Events

namespace Dispatcher
open Tables Runs

def Db.leasesOf (db : Db) (j : JobId) : List Lease := db.leases.rows.filter fun l => l.jobId = j

def Db.openHistoryOf (db : Db) (j : JobId) : List LeaseHistory :=
  db.leaseHistory.filter fun h => h.jobId = j && h.terminatedAtMs.isNone

/-- The reaper can find the job, and a tick past the expiry that meets no lock
puts it back in the queue. -/
structure Recoverable (s : Cluster) (j : JobId) : Prop where
  leased : s.db.statusOf j = some .dispatched → ∃ l h, s.db.leasesOf j = [l] ∧
    s.db.openHistoryOf j = [h] ∧ h.workerId = l.workerId ∧ h.fence = l.token
  reapable : ∀ status, s.db.statusOf j = some status → status = .pending ∨ status.terminal = true ∨
    ∃ l ∈ s.db.leasesOf j, ∀ c ctx ctx', l.expiresAt < ctx.nowMs + ctx.skewMs →
      ctx'.locked j = false → ∃ s',
        exec Cluster.step s [.reaperTick c ctx, .resume s.tasks.length ctx'] = some s' ∧
        s'.db.statusOf j = some .pending ∧ s'.db.leasesOf j = []

theorem openHistoryOf_view (db : Db) (j : JobId) : db.openHistoryOf j = (db.view j).openRows := by
  simp only [Db.openHistoryOf, JobView.openRows, Db.view, List.filter_filter]
  apply List.filter_congr
  intro h _
  rw [Bool.and_comm]

theorem leasesOf_eq {db : Db} {j : JobId} : db.leasesOf j = (db.leases.lookup j).toList :=
  Table.filter_key db.leases j

/-- A DISPATCHED job goes back to PENDING without a lease. -/
theorem reaped_view {v : JobView} (h : v.status = some .dispatched) (ctx : Ctx) (j : JobId) :
    ((JobEvent.reaped ctx).apply j v).status = some .pending ∧
      ((JobEvent.reaped ctx).apply j v).lease = none := by
  obtain ⟨r, hj, hs⟩ := Option.map_eq_some_iff.mp h
  exact ⟨by simp [JobEvent.apply, JobView.status, JobView.patchDispatched, hj, hs, Db.JobPatch.on], rfl⟩

namespace Cluster

/-- A tick that nothing interrupts. -/
theorem reaperTick_run (s : Cluster) (c : CoordinatorId) (ctx ctx' : Ctx) :
    ∃ s', exec step s [.reaperTick c ctx, .resume s.tasks.length ctx'] = some s' ∧
      s'.db = reaperTx { ctx' with coordinatorId := c } (ctx.nowMs + ctx.skewMs) s.db := by
  simp [exec, step, spawn, finish, Task.resume]

/-- No DISPATCHED job is out of the reaper's reach, in whatever state the coordinators and
the messages are: a tick past the expiry puts it back in the queue. -/
theorem recoverable {s : Cluster} (h : Reachable step init s) (j : JobId) : Recoverable s j := by
  have hc := consistent_reachable h j
  constructor
  · intro hd
    obtain ⟨l, hl⟩ := Option.isSome_iff_exists.mp (hc.dispatched hd)
    obtain ⟨_, q, hq, hw, hf⟩ := hc.leased l hl
    refine ⟨l, q, ?_, ?_, hw, hf⟩
    · rw [leasesOf_eq]
      exact congrArg Option.toList hl
    · rw [openHistoryOf_view]
      exact hq
  · intro status hs
    cases status with
    | pending => exact .inl rfl
    | succeeded | failed | cancelled => exact .inr (.inl rfl)
    | dispatched =>
      obtain ⟨l, hl⟩ := Option.isSome_iff_exists.mp (hc.dispatched hs)
      have hlj : s.db.leases.lookup j = some l := hl
      refine .inr (.inr ⟨l, by simp [leasesOf_eq, hlj], ?_⟩)
      intro c ctx ctx' expired unlocked
      obtain ⟨s', hrun, hdb⟩ := reaperTick_run s c ctx ctx'
      have hm : j ∈ reapedIds { ctx' with coordinatorId := c } (ctx.nowMs + ctx.skewMs) s.db :=
        mem_reapedIds.mpr ⟨l, hlj, expired, hs, unlocked⟩
      have hv := reaperTx_view { ctx' with coordinatorId := c } (ctx.nowMs + ctx.skewMs) s.db j
      rw [← hdb, if_pos hm] at hv
      obtain ⟨hp, hn⟩ := reaped_view (v := s.db.view j) hs { ctx' with coordinatorId := c } j
      refine ⟨s', hrun, ?_, ?_⟩
      · rw [← Db.view_status, hv]
        exact hp
      · rw [leasesOf_eq]
        exact congrArg Option.toList ((congrArg JobView.lease hv).trans hn)

/-- A dispatch whose `job.dispatch` is never sent: the coordinator crashes first. -/
def strandedRun : List Action :=
  [.post "c1" (some (.str "k")) (some (.obj [])), .resume 0 (.quiet "c1" 1), .resume 0 (.quiet "c1" 1),
    .dispatchTick "c1" "w1", .resume 0 (.quiet "c1" 3), .crash "c1"]

theorem recoverable_strandedRun : ∃ s, exec step init strandedRun = some s ∧
    s.db.statusOf 1 = some .dispatched ∧ s.sent.length = 0 ∧ Recoverable s 1 := by
  obtain ⟨s, hs, hp⟩ : ∃ s, exec step init strandedRun = some s ∧
      decide (s.db.statusOf 1 = some .dispatched ∧ s.sent.length = 0) = true :=
    exec_any (by decide)
  obtain ⟨hd, hn⟩ := of_decide_eq_true hp
  exact ⟨s, hs, hd, hn, recoverable (reachable_of_exec strandedRun hs) 1⟩

end Cluster

end Dispatcher
