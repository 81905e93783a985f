import Dispatcher.Job.Lifecycle

namespace Dispatcher
open Fencing

/-- How the tables of one job fit together when `n` is the last fencing token
given out. A lease may outlive its job only as the lease of a CANCELLED job. -/
structure Consistent (n : Nat) (v : JobView) : Prop where
  sound : Sound v.ledger
  fences : ∀ h ∈ v.history, h.fence ≤ n
  absent : v.job = none → v.lease = none ∧ v.history = [] ∧ v.commits = []
  pending : v.status = some .pending → v.lease = none ∧ v.openRows = []
  dispatched : v.status = some .dispatched → v.lease.isSome
  leased : ∀ l, v.lease = some l →
    (v.status = some .dispatched ∨ v.status = some .cancelled) ∧
    ∃ h, v.openRows = [h] ∧ h.workerId = l.workerId ∧ h.fence = l.token
  accepted : ∀ c ∈ v.commits, c.accepted = true
  result : v.result.isSome ↔ v.commits ≠ []
  succeeded : v.status = some .succeeded → v.commits ≠ []

theorem terminate_open (v : JobView) (atMs : Int) :
    (v.terminate atMs).filter (fun h => h.terminatedAtMs.isNone) = [] := by
  simp only [List.filter_eq_nil_iff, JobView.terminate, List.mem_map]
  rintro _ ⟨h, _, rfl⟩
  cases ht : h.terminatedAtMs <;> simp [LeaseHistory.terminate, ht]

theorem LeaseHistory.terminate_grant (p : JobId → Bool) (atMs : Int) (h : LeaseHistory) :
    (h.terminate p atMs).workerId = h.workerId ∧ (h.terminate p atMs).fence = h.fence := by
  unfold LeaseHistory.terminate
  split <;> exact ⟨rfl, rfl⟩

theorem terminate_grants (v : JobView) (atMs : Int) :
    (v.terminate atMs).map (fun h => (h.workerId, h.fence)) =
      v.history.map fun h => (h.workerId, h.fence) := by
  simp only [JobView.terminate, List.map_map]
  apply List.map_congr_left
  intro h _
  obtain ⟨hw, hf⟩ := LeaseHistory.terminate_grant (fun _ => true) atMs h
  simp only [Function.comp_apply, hw, hf]

theorem terminate_fences {v : JobView} {n : Nat} (hv : ∀ h ∈ v.history, h.fence ≤ n) (atMs : Int) :
    ∀ h ∈ v.terminate atMs, h.fence ≤ n := by
  intro h hm
  obtain ⟨q, hq, rfl⟩ := List.mem_map.mp hm
  rw [(LeaseHistory.terminate_grant _ _ q).2]
  exact hv q hq

theorem Consistent.mono {n m : Nat} {v : JobView} (h : Consistent n v) (hn : n ≤ m) :
    Consistent m v :=
  { h with fences := fun q hq => Nat.le_trans (h.fences q hq) hn }

/-- A job still to be decided has no commit and no result. -/
theorem Consistent.undecided {n : Nat} {v : JobView} (h : Consistent n v)
    (hl : v.ledger.live = true) : v.commits = [] ∧ v.result = none := by
  have hc : v.commits = [] := by simpa [JobView.ledger] using h.sound.undecided hl
  refine ⟨hc, ?_⟩
  have hr := h.result
  rw [hc] at hr
  simpa using hr

theorem live_of_status {v : JobView} (h : v.status = some s) (hs : s.terminal = false) :
    v.ledger.live = true := by
  simp [JobView.ledger, h, hs]

section events

variable {n : Nat} {v : JobView} {j : JobId}

/-- A lease given up by its job, whatever the job's next status. -/
theorem patched_ledger (h : Consistent n v) (patch : Db.JobPatch) (atMs : Int)
    (hr : patch.result = none) (ts : List JobTransition) :
    Step v.ledger (JobView.ledger ⟨v.patchDispatched patch, none, v.terminate atMs, ts, v.commits⟩) := by
  obtain ⟨job, lease, history, transitions, commits⟩ := v
  cases job with
  | none =>
    obtain ⟨rfl, rfl, rfl⟩ := h.absent rfl
    exact .idle
  | some r =>
    have hlive : JobStatus.dispatched.terminal = false := rfl
    by_cases hd : r.status = .dispatched
    · cases hp : patch.status.terminal with
      | false =>
        convert Step.revoke using 1
        simp [JobView.ledger, JobView.patchDispatched, JobView.status, JobView.result, hd, hp,
          terminate_grants, Db.JobPatch.on, hr, hlive]
      | true =>
        convert Step.retire using 1
        simp [JobView.ledger, JobView.patchDispatched, JobView.status, JobView.result, hd, hp,
          terminate_grants, Db.JobPatch.on, hr]
    · convert Step.idle using 1
      simp [JobView.ledger, JobView.patchDispatched, JobView.status, JobView.result, hd,
        terminate_grants]

theorem submitted_ledger (h : Consistent n v) (hj : v.job = none) (ctx : Ctx) (key : String)
    (payload : Json) : Step v.ledger ((JobEvent.submitted ctx key payload).apply j v).ledger := by
  obtain ⟨hl, hh, hc⟩ := h.absent hj
  convert Step.idle using 1
  simp [JobEvent.apply, JobView.ledger, JobView.status, hl, hh, hc, hj, JobStatus.terminal]

theorem dispatched_ledger (h : Consistent n v) (hp : v.status = some .pending) (ht : n < token)
    (ctx : Ctx) (workerId : WorkerId) :
    Step v.ledger ((JobEvent.dispatched ctx workerId token).apply j v).ledger := by
  obtain ⟨hc, hr⟩ := h.undecided (live_of_status hp rfl)
  have newer : ∀ g ∈ v.ledger.grants, g.2 < token := by
    intro g hg
    obtain ⟨q, hq, rfl⟩ := List.mem_map.mp hg
    exact Nat.lt_of_le_of_lt (h.fences q hq) ht
  obtain ⟨r, hj, hs⟩ := Option.map_eq_some_iff.mp hp
  convert Step.grant (w := workerId) (live_of_status hp rfl) newer using 1
  simp [JobEvent.apply, JobView.ledger, JobView.status, hj, hs, hc, Db.JobPatch.on,
    JobStatus.terminal]

theorem accepted_ledger (h : Consistent n v) (hd : v.status = some .dispatched)
    (hl : v.lease = some l) (ctx : Ctx) (result : Json) :
    Step v.ledger ((JobEvent.accepted ctx l.workerId l.token result).apply j v).ledger := by
  obtain ⟨hc, hr⟩ := h.undecided (live_of_status hd rfl)
  have held : v.ledger.holder = some (l.workerId, l.token) := by simp [JobView.ledger, hd, hl]
  obtain ⟨r, hj, hs⟩ := Option.map_eq_some_iff.mp hd
  convert Step.accept (r := some result) held using 1
  simp [JobEvent.apply, JobView.ledger, JobView.status, JobView.result, JobView.patchDispatched, hj,
    hs, hc, Db.JobPatch.on, terminate_grants, JobStatus.terminal]

theorem cancelled_ledger (h : Consistent n v) (ctx : Ctx) :
    Step v.ledger ((JobEvent.cancelled ctx).apply j v).ledger := by
  obtain ⟨job, lease, history, transitions, commits⟩ := v
  cases job with
  | none =>
    obtain ⟨rfl, rfl, rfl⟩ := h.absent rfl
    exact .idle
  | some r =>
    convert Step.retire using 1
    simp [JobEvent.apply, JobView.ledger, JobView.status, JobView.result, Db.JobPatch.on,
      JobStatus.terminal]

/-- Every event of a job is a move of the fencing ledger. -/
theorem ledger_step (h : Consistent n v) {e : JobEvent} (he : e.Enabled n v) :
    Step v.ledger (e.apply j v).ledger := by
  cases e with
  | submitted ctx key payload => exact submitted_ledger h he ctx key payload
  | dispatched ctx w t => exact dispatched_ledger h he.1 he.2.2 ctx w
  | accepted ctx w t result =>
    obtain ⟨hd, l, hl, rfl, rfl⟩ := he
    exact accepted_ledger h hd hl ctx result
  | discarded =>
    convert Step.idle using 1
    have hn : v.status ≠ some .dispatched := he
    have hs : (JobView.mk v.job none v.history v.transitions v.commits).status = v.status := rfl
    simp [JobView.ledger, JobEvent.apply, JobView.result, hs, hn]
  | requeued ctx => exact patched_ledger h _ _ rfl _
  | failed ctx => exact patched_ledger h _ _ rfl _
  | reaped ctx => exact patched_ledger h _ _ rfl _
  | cancelled ctx => exact cancelled_ledger h ctx
  | extended expiresAt =>
    convert Step.idle using 1
    simp [JobEvent.apply, JobView.ledger, JobView.status, JobView.result, Function.comp_def]

theorem openRows_append (v : JobView) (h : LeaseHistory) (hn : h.terminatedAtMs = none)
    (hv : v.openRows = []) :
    (v.history ++ [h]).filter (fun q => q.terminatedAtMs.isNone) = [h] := by
  have he : v.history.filter (fun q => q.terminatedAtMs.isNone) = [] := hv
  simp [List.filter_append, he, hn]

/-- A lease given up by its job keeps the job consistent. -/
theorem patched_consistent (h : Consistent n v) (patch : Db.JobPatch) (atMs : Int)
    (hr : patch.result = none) (ts : List JobTransition)
    (hp : patch.status = .pending ∨ patch.status = .failed) :
    Consistent n ⟨v.patchDispatched patch, none, v.terminate atMs, ts, v.commits⟩ := by
  have hopen := terminate_open v atMs
  have hsound := h.sound.step (patched_ledger h patch atMs hr ts)
  have hfences := terminate_fences h.fences atMs
  obtain ⟨job, lease, history, transitions, commits⟩ := v
  cases job with
  | none =>
    obtain ⟨rfl, rfl, rfl⟩ := h.absent rfl
    exact ⟨hsound, by simp [JobView.terminate], by simp [JobView.terminate],
      by simp [JobView.status, JobView.patchDispatched],
      by simp [JobView.status, JobView.patchDispatched], by simp, by simp,
      by simp [JobView.result, JobView.patchDispatched],
      by simp [JobView.status, JobView.patchDispatched]⟩
  | some r =>
    by_cases hd : r.status = .dispatched
    · refine ⟨hsound, hfences, by simp [JobView.patchDispatched], fun _ => ⟨rfl, hopen⟩, ?_, by simp,
        h.accepted, ?_, ?_⟩
      · rcases hp with hp | hp <;>
          simp [JobView.status, JobView.patchDispatched, hd, Db.JobPatch.on, hp]
      · simpa [JobView.result, JobView.patchDispatched, hd, Db.JobPatch.on, hr] using h.result
      · rcases hp with hp | hp <;>
          simp [JobView.status, JobView.patchDispatched, hd, Db.JobPatch.on, hp]
    · refine ⟨hsound, hfences, by simp [JobView.patchDispatched], fun _ => ⟨rfl, hopen⟩, ?_, by simp,
        h.accepted, ?_, ?_⟩
      · simp [JobView.status, JobView.patchDispatched, hd]
      · simpa [JobView.result, JobView.patchDispatched, hd] using h.result
      · simpa [JobView.status, JobView.patchDispatched, hd] using h.succeeded

/-- The tables of a new job fit together. -/
theorem submitted_consistent (h : Consistent n v) (hj : v.job = none) (ctx : Ctx) (key : String)
    (payload : Json) : Consistent n ((JobEvent.submitted ctx key payload).apply j v) := by
  obtain ⟨hl, hh, hc⟩ := h.absent hj
  refine ⟨h.sound.step (submitted_ledger h hj ctx key payload), h.fences, by simp [JobEvent.apply],
    ?_, ?_, ?_, h.accepted, ?_, ?_⟩
  all_goals
    simp [JobEvent.apply, JobView.status, JobView.result, JobView.openRows, hl, hh, hc]

theorem dispatched_consistent (h : Consistent n v) (hp : v.status = some .pending)
    (ht : n < token) (ctx : Ctx) (workerId : WorkerId) :
    Consistent token ((JobEvent.dispatched ctx workerId token).apply j v) := by
  obtain ⟨hc, hr⟩ := h.undecided (live_of_status hp rfl)
  obtain ⟨r, hj, hs⟩ := Option.map_eq_some_iff.mp hp
  have hopen := openRows_append v ⟨j, workerId, token, ctx.pgClockUs, none⟩ rfl (h.pending hp).2
  refine ⟨h.sound.step (dispatched_ledger h hp ht ctx workerId), ?_, ?_, ?_, ?_, ?_, ?_, ?_, ?_⟩
  · intro q hq
    rcases List.mem_append.mp hq with hq | hq
    · exact Nat.le_of_lt (Nat.lt_of_le_of_lt (h.fences q hq) ht)
    · cases List.mem_singleton.mp hq
      exact Nat.le_refl _
  · simp [JobEvent.apply, hj]
  · simp [JobEvent.apply, JobView.status, hj, Db.JobPatch.on]
  · simp [JobEvent.apply]
  · rintro l ⟨⟩
    refine ⟨.inl ?_, _, hopen, rfl, rfl⟩
    simp [JobEvent.apply, JobView.status, hj, Db.JobPatch.on]
  · simp [JobEvent.apply, hc]
  · simpa [JobEvent.apply, JobView.result, hj, hc, Db.JobPatch.on] using hr
  · simp [JobEvent.apply, JobView.status, hj, Db.JobPatch.on]

/-- The tables of a job whose result is accepted fit together: the result is the holder's. -/
theorem accepted_consistent (h : Consistent n v) (hd : v.status = some .dispatched)
    (hl : v.lease = some l) (ctx : Ctx) (result : Json) :
    Consistent n ((JobEvent.accepted ctx l.workerId l.token result).apply j v) := by
  obtain ⟨r, hj, hs⟩ := Option.map_eq_some_iff.mp hd
  refine ⟨h.sound.step (accepted_ledger h hd hl ctx result), terminate_fences h.fences _, ?_, ?_, ?_,
    by simp [JobEvent.apply], ?_, ?_, by simp [JobEvent.apply]⟩
  · simp [JobEvent.apply, JobView.patchDispatched, hj]
  · exact fun _ => ⟨rfl, terminate_open v _⟩
  · simp [JobEvent.apply, JobView.status, JobView.patchDispatched, hj, hs, Db.JobPatch.on]
  · intro c hc
    rcases List.mem_append.mp hc with hc | hc
    · exact h.accepted c hc
    · cases List.mem_singleton.mp hc
      rfl
  · simp [JobEvent.apply, JobView.result, JobView.patchDispatched, hj, hs, Db.JobPatch.on]

theorem discarded_consistent (h : Consistent n v) (hn : v.status ≠ some .dispatched) :
    Consistent n (JobEvent.discarded.apply j v) :=
  ⟨h.sound.step (ledger_step h (e := .discarded) hn), h.fences,
    fun hj => ⟨rfl, (h.absent hj).2⟩, fun hp => ⟨rfl, (h.pending hp).2⟩,
    fun hd => absurd hd hn, by simp [JobEvent.apply], h.accepted, h.result, h.succeeded⟩

theorem cancelled_consistent (h : Consistent n v) (ctx : Ctx) :
    Consistent n ((JobEvent.cancelled ctx).apply j v) := by
  have hsound := h.sound.step (cancelled_ledger (j := j) h ctx)
  obtain ⟨job, lease, history, transitions, commits⟩ := v
  cases job with
  | none =>
    obtain ⟨rfl, rfl, rfl⟩ := h.absent rfl
    exact ⟨hsound, h.fences, h.absent, h.pending, h.dispatched, h.leased, h.accepted, h.result,
      h.succeeded⟩
  | some r =>
    refine ⟨hsound, h.fences, by simp [JobEvent.apply], ?_, ?_, ?_, h.accepted, ?_, ?_⟩
    · simp [JobEvent.apply, JobView.status, Db.JobPatch.on]
    · simp [JobEvent.apply, JobView.status, Db.JobPatch.on]
    · intro l hl
      refine ⟨.inr ?_, (h.leased l hl).2⟩
      simp [JobEvent.apply, JobView.status, Db.JobPatch.on]
    · simpa [JobEvent.apply, JobView.result, Db.JobPatch.on] using h.result
    · simp [JobEvent.apply, JobView.status, Db.JobPatch.on]

theorem extended_consistent (h : Consistent n v) (expiresAt : Int) :
    Consistent n ((JobEvent.extended expiresAt).apply j v) := by
  refine ⟨h.sound.step (ledger_step h (e := .extended expiresAt) trivial), h.fences, ?_, ?_, ?_, ?_,
    h.accepted, h.result, h.succeeded⟩
  · intro hj
    obtain ⟨hl, hh⟩ := h.absent hj
    exact ⟨by simp [JobEvent.apply, hl], hh⟩
  · intro hp
    obtain ⟨hl, hh⟩ := h.pending hp
    exact ⟨by simp [JobEvent.apply, hl], hh⟩
  · intro hd
    simpa [JobEvent.apply] using h.dispatched hd
  · intro l hl
    obtain ⟨q, hq, rfl⟩ := Option.map_eq_some_iff.mp hl
    exact h.leased q hq

def JobEvent.seq (n : Nat) : JobEvent → Nat
  | .dispatched _ _ token => token
  | _ => n

/-- Consistency is kept by every event that can happen. -/
theorem Consistent.step (h : Consistent n v) {e : JobEvent} (he : e.Enabled n v) :
    Consistent (e.seq n) (e.apply j v) := by
  cases e with
  | submitted ctx key payload => exact submitted_consistent h he ctx key payload
  | dispatched ctx w t => exact dispatched_consistent h he.1 he.2.2 ctx w
  | accepted ctx w t result =>
    obtain ⟨hd, l, hl, rfl, rfl⟩ := he
    exact accepted_consistent h hd hl ctx result
  | discarded => exact discarded_consistent h he
  | requeued ctx => exact patched_consistent h _ _ rfl _ (.inl rfl)
  | failed ctx => exact patched_consistent h _ _ rfl _ (.inr rfl)
  | reaped ctx => exact patched_consistent h _ _ rfl _ (.inl rfl)
  | cancelled ctx => exact cancelled_consistent h ctx
  | extended expiresAt => exact extended_consistent h expiresAt

end events

end Dispatcher
