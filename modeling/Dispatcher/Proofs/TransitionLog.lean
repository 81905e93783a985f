import Dispatcher.Lib.Walks
import Dispatcher.Proofs.StatusChanges

namespace Dispatcher
open Tables Runs Walks

/-- The rows of a job lead from "" over PENDING to the status it has. -/
structure LogPath (db : Db) (j : JobId) : Prop where
  walk : IsWalk none ((db.transitionsOf j).map JobTransition.edge) (db.statusOf j)
  first : ∀ t, (db.transitionsOf j).head? = some t → t.toStatus = .pending

/-- The step writes one true row for a status change, and none without. -/
def Logged (e : Event Cluster Action) (j : JobId) : Prop :=
  if e.before.db.statusOf j = e.after.db.statusOf j then
    e.after.db.transitionsOf j = e.before.db.transitionsOf j
  else ∃ t, e.after.db.transitionsOf j = e.before.db.transitionsOf j ++ [t] ∧
    t.edge = (e.before.db.statusOf j, e.after.db.statusOf j)

/-- The `job.failed` whose transaction a step runs. -/
def Cluster.fails (s : Cluster) (a : Action) : Option JobFailed :=
  match s.resumed a with
  | some (_, .failedTx msg) => some msg
  | _ => none

/-- The three hard-coded rows are true: a cancel finds its job PENDING, a
permanent failure finds it DISPATCHED, and a temporary one, which writes no row,
does not find it so. -/
structure WritesTrue (e : Event Cluster Action) : Prop where
  cancel : ∀ j, e.before.cancels e.action = some j → e.before.db.statusOf j = some .pending
  temporary : ∀ msg, e.before.fails e.action = some msg → msg.temporary = true →
    e.before.db.statusOf msg.jobId ≠ some .dispatched
  permanent : ∀ msg, e.before.fails e.action = some msg → msg.temporary = false →
    e.before.db.statusOf msg.jobId = some .dispatched

def JobEvent.row (j : JobId) : JobEvent → Option JobTransition
  | .submitted ctx _ _ => some (log ctx j none .pending)
  | .dispatched ctx _ _ => some (log ctx j (some .pending) .dispatched)
  | .accepted ctx _ _ _ => some (log ctx j (some .dispatched) .succeeded)
  | .failed ctx => some (log ctx j (some .dispatched) .failed)
  | .reaped ctx => some (log ctx j (some .dispatched) .pending)
  | .cancelled ctx => some (log ctx j (some .pending) .cancelled)
  | .discarded | .requeued _ | .extended _ => none

def JobEvent.WritesTrue (v : JobView) : JobEvent → Prop
  | .cancelled _ => v.status = some .pending
  | .requeued _ => v.status ≠ some .dispatched
  | .failed _ => v.status = some .dispatched
  | _ => True

structure JobView.Path (v : JobView) : Prop where
  walk : IsWalk none (v.transitions.map JobTransition.edge) v.status
  first : ∀ t, v.transitions.head? = some t → t.toStatus = .pending

def JobView.Logged (v v' : JobView) : Prop :=
  if v.status = v'.status then v'.transitions = v.transitions
  else ∃ t, v'.transitions = v.transitions ++ [t] ∧ t.edge = (v.status, v'.status)

theorem apply_transitions (v : JobView) (j : JobId) (e : JobEvent) :
    (e.apply j v).transitions = v.transitions ++ (e.row j).toList := by
  cases e <;> simp [JobEvent.apply, JobEvent.row]

theorem row_moves {j : JobId} {e : JobEvent} {t : JobTransition} (h : e.row j = some t) :
    t.fromStatus ≠ some t.toStatus := by
  cases e <;> cases h <;> simp [JobEvent.log]

theorem patched_undispatched {v : JobView} (h : v.status ≠ some .dispatched)
    (patch : Db.JobPatch) : (v.patchDispatched patch).map Job.status = v.status := by
  unfold JobView.status at h ⊢
  cases hj : v.job with
  | none => simp [JobView.patchDispatched, hj]
  | some r =>
    simp only [hj, Option.map_some, ne_eq, Option.some.injEq] at h
    simp [patched_status hj, h]

theorem patched_dispatched {v : JobView} (h : v.status = some .dispatched)
    (patch : Db.JobPatch) : (v.patchDispatched patch).map Job.status = some patch.status := by
  obtain ⟨r, hr, hs⟩ := Option.map_eq_some_iff.mp h
  simp [patched_status hr, hs]

theorem logged_moved {v v' : JobView} {t : JobTransition}
    (ht : v'.transitions = v.transitions ++ [t]) (hs : v'.status = some t.toStatus)
    (hne : t.fromStatus ≠ some t.toStatus) : v.Logged v' ↔ v.status = t.fromStatus := by
  unfold JobView.Logged
  by_cases hv : v.status = v'.status
  · simp [hv, ht, hs, hne.symm]
  · have hn : ¬ v.status = some t.toStatus := hs ▸ hv
    simp [ht, hs, hn, JobTransition.edge, eq_comm]

theorem not_logged_spurious {v v' : JobView} {t : JobTransition}
    (ht : v'.transitions = v.transitions ++ [t]) (hs : v'.status = v.status) : ¬ v.Logged v' := by
  simp [JobView.Logged, hs, ht]

theorem logged_silent {v v' : JobView} (ht : v'.transitions = v.transitions) :
    v.Logged v' ↔ v.status = v'.status := by
  unfold JobView.Logged
  by_cases hv : v.status = v'.status <;> simp [hv, ht]

/-- Each event writes the truth exactly when its hard-coded row is true. -/
theorem logged_iff {n : Nat} {v : JobView} {j : JobId} {e : JobEvent} (he : e.Enabled n v) :
    v.Logged (e.apply j v) ↔ e.WritesTrue v := by
  cases e with
  | submitted ctx key payload =>
    have hn : v.status = none := congrArg (Option.map Job.status) he
    rw [logged_moved (t := JobEvent.log ctx j none .pending) rfl rfl (by simp [JobEvent.log])]
    simp [JobEvent.WritesTrue, hn, JobEvent.log]
  | dispatched ctx w t =>
    have hs : ((JobEvent.dispatched ctx w t).apply j v).status = some .dispatched := by
      obtain ⟨r, hr, _⟩ := Option.map_eq_some_iff.mp he.1
      simp [JobEvent.apply, JobView.status, hr, Db.JobPatch.on]
    rw [logged_moved (t := JobEvent.log ctx j (some .pending) .dispatched) rfl hs (by simp [JobEvent.log])]
    exact iff_of_true he.1 trivial
  | accepted ctx w t r =>
    have hs : ((JobEvent.accepted ctx w t r).apply j v).status = some .succeeded :=
      patched_dispatched he.1 _
    rw [logged_moved (t := JobEvent.log ctx j (some .dispatched) .succeeded) rfl hs (by simp [JobEvent.log])]
    exact iff_of_true he.1 trivial
  | reaped ctx =>
    have hs : ((JobEvent.reaped ctx).apply j v).status = some .pending := patched_dispatched he _
    rw [logged_moved (t := JobEvent.log ctx j (some .dispatched) .pending) rfl hs (by simp [JobEvent.log])]
    exact iff_of_true he trivial
  | discarded | extended =>
    refine Iff.trans (logged_silent ?_) ?_
    · rfl
    · exact iff_of_true rfl trivial
  | requeued ctx =>
    have silent : ((JobEvent.requeued ctx).apply j v).transitions = v.transitions := rfl
    rw [logged_silent silent]
    by_cases hd : v.status = some .dispatched
    · have hs : ((JobEvent.requeued ctx).apply j v).status = some .pending := patched_dispatched hd _
      simp [JobEvent.WritesTrue, hs, hd]
    · have hs : ((JobEvent.requeued ctx).apply j v).status = v.status := patched_undispatched hd _
      exact iff_of_true hs.symm hd
  | failed ctx =>
    by_cases hd : v.status = some .dispatched
    · have hs : ((JobEvent.failed ctx).apply j v).status = some .failed := patched_dispatched hd _
      rw [logged_moved (t := JobEvent.log ctx j (some .dispatched) .failed) rfl hs (by simp [JobEvent.log])]
      rfl
    · have hs : ((JobEvent.failed ctx).apply j v).status = v.status := patched_undispatched hd _
      exact iff_of_false (not_logged_spurious rfl hs) hd
  | cancelled ctx =>
    cases hj : v.job with
    | none =>
      have hn : v.status = none := congrArg (Option.map Job.status) hj
      have hs : ((JobEvent.cancelled ctx).apply j v).status = v.status := by
        simp [JobEvent.apply, JobView.status, hj]
      refine iff_of_false (not_logged_spurious rfl hs) ?_
      simp [JobEvent.WritesTrue, hn]
    | some r =>
      have hs := Cluster.cancelled_status (v := v) (by simp [hj]) ctx j
      rw [logged_moved (t := JobEvent.log ctx j (some .pending) .cancelled) rfl hs (by simp [JobEvent.log])]
      rfl

/-- Rows on both sides of a step that form a path tell the step. -/
theorem logged_of_path {v v' : JobView} {r : Option JobTransition} (h : v.Path) (h' : v'.Path)
    (hr : v'.transitions = v.transitions ++ r.toList)
    (moves : ∀ t, r = some t → t.fromStatus ≠ some t.toStatus) : v.Logged v' := by
  have walk := h'.walk
  rw [hr] at walk
  cases r with
  | none =>
    rw [logged_silent (by simpa using hr)]
    simp only [Option.toList_none, List.append_nil] at walk
    exact h.walk.end_unique walk
  | some t =>
    simp only [Option.toList_some, List.map_append, List.map_cons, List.map_nil] at walk
    obtain ⟨before, after⟩ := isWalk_snoc.mp walk
    rw [logged_moved (by simpa using hr) after.symm (moves t rfl)]
    exact h.walk.end_unique before

/-- A true row, or none where nothing changed, keeps the path. -/
theorem path_of_logged {v v' : JobView} (h : v.Path) (hl : v.Logged v')
    (created : v.status = none → ∀ s, v'.status = some s → s = .pending) : v'.Path := by
  unfold JobView.Logged at hl
  split at hl
  · rename_i hs
    exact ⟨by rw [hl, ← hs]; exact h.walk, by rw [hl]; exact h.first⟩
  · obtain ⟨t, ht, he⟩ := hl
    simp only [JobTransition.edge, Prod.mk.injEq] at he
    refine ⟨?_, ?_⟩
    · rw [ht, List.map_append, List.map_singleton]
      exact isWalk_snoc.mpr ⟨he.1 ▸ h.walk, he.2⟩
    · intro q hq
      rw [ht] at hq
      cases hv : v.transitions with
      | cons p rest =>
        rw [hv] at hq
        exact h.first q (by rw [hv]; exact hq)
      | nil =>
        have hw := h.walk
        rw [hv] at hw hq
        simp only [List.nil_append, List.head?_cons, Option.some.injEq] at hq
        subst hq
        exact created hw.symm _ he.2.symm

theorem apply_created {n : Nat} {v : JobView} {j : JobId} {e : JobEvent} (he : e.Enabled n v)
    (hn : v.status = none) : ∀ s, (e.apply j v).status = some s → s = .pending := by
  have hj : v.job = none := Option.map_eq_none_iff.mp hn
  intro s hs
  cases e with
  | submitted ctx key payload => exact (Option.some.inj hs).symm
  | _ => simp [JobEvent.apply, JobView.status, JobView.patchDispatched, hj] at hs

namespace Cluster

theorem fails_event {s : Cluster} {a : Action} {msg : JobFailed} (h : s.fails a = some msg) :
    ∃ ctx, s.event a msg.jobId = some (failedEvent ctx msg) := by
  unfold fails at h
  split at h
  · rename_i ctx m hr
    cases h
    exact ⟨ctx, by simp [event, hr, Task.event]⟩
  · cases h

theorem writesTrue_iff {e : Event Cluster Action} :
    WritesTrue e ↔ ∀ j x, e.before.event e.action j = some x → x.WritesTrue (e.before.db.view j) := by
  constructor
  · intro h j x hx
    obtain ⟨⟨ctx', t⟩, hr, he⟩ := Option.bind_eq_some_iff.mp hx
    have origin := event_origin he
    cases x with
    | cancelled ctx => exact h.cancel j (cancels_event.mpr ⟨ctx, hx⟩)
    | requeued ctx =>
      obtain ⟨msg, rfl, rfl, ht⟩ := origin
      exact h.temporary msg (by simp [fails, hr]) ht
    | failed ctx =>
      obtain ⟨msg, rfl, rfl, ht⟩ := origin
      exact h.permanent msg (by simp [fails, hr]) ht
    | submitted | dispatched | accepted | discarded | reaped | extended => trivial
  · intro h
    constructor
    · intro j hc
      obtain ⟨ctx, he⟩ := cancels_event.mp hc
      exact h j _ he
    · intro msg hm ht
      obtain ⟨ctx, he⟩ := fails_event hm
      rw [failedEvent, if_pos ht] at he
      exact h _ _ he
    · intro msg hm ht
      obtain ⟨ctx, he⟩ := fails_event hm
      rw [failedEvent, if_neg (by simp [ht])] at he
      exact h _ _ he

theorem logPath_view {db : Db} {j : JobId} : LogPath db j ↔ (db.view j).Path :=
  ⟨fun h => ⟨h.walk, h.first⟩, fun h => ⟨h.walk, h.first⟩⟩

/-- A step logs the truth about every job exactly when its rows are true. -/
theorem step_logged {s s' : Cluster} {a : Action} (h : step s a = some s') :
    (∀ j, Logged ⟨s, a, s'⟩ j) ↔ WritesTrue ⟨s, a, s'⟩ := by
  rw [writesTrue_iff]
  apply forall_congr'
  intro j
  change (s.db.view j).Logged (s'.db.view j) ↔ _
  rw [step_view h j]
  cases he : s.event a j with
  | none =>
    have same : (s.db.view j).Logged (s.db.view j) := (logged_silent rfl).mpr rfl
    simpa [JobView.after] using same
  | some x =>
    rw [JobView.after, logged_iff (step_enabled he)]
    simp

theorem step_created {s s' : Cluster} {a : Action} {j : JobId} (h : step s a = some s')
    (hn : (s.db.view j).status = none) : ∀ x, (s'.db.view j).status = some x → x = .pending := by
  rw [step_view h j]
  cases he : s.event a j with
  | none =>
    intro x hx
    rw [JobView.after, hn] at hx
    cases hx
  | some e => exact apply_created (step_enabled he) hn

/-- A step writes one row for a job at most, and it is a change. -/
theorem step_rows {s s' : Cluster} {a : Action} (h : step s a = some s') (j : JobId) :
    ∃ r : Option JobTransition, (s'.db.view j).transitions = (s.db.view j).transitions ++ r.toList ∧
      ∀ t, r = some t → t.fromStatus ≠ some t.toStatus := by
  rw [step_view h j]
  cases s.event a j with
  | none => exact ⟨none, by simp [JobView.after], by simp⟩
  | some e => exact ⟨e.row j, apply_transitions _ _ _, fun t ht => row_moves ht⟩

/-- The log tells the truth in exactly the runs whose hard-coded rows are true,
whether that is read off its paths or off its single steps. -/
theorem transition_log_iff {es : List (Event Cluster Action)} {s : Cluster}
    (h : Run step init es s) :
    ((∀ e ∈ es, ∀ j, LogPath e.after.db j) ↔ ∀ e ∈ es, WritesTrue e) ∧
      ((∀ e ∈ es, ∀ j, Logged e j) ↔ ∀ e ∈ es, WritesTrue e) := by
  have start : ∀ j, (init.db.view j).Path := fun j => ⟨rfl, fun t ht => by cases ht⟩
  have steps : (∀ e ∈ es, ∀ j, Logged e j) ↔ ∀ e ∈ es, WritesTrue e := by
    apply forall₂_congr
    intro e he
    exact step_logged (h.event he).2
  refine ⟨?_, steps⟩
  rw [← steps]
  constructor
  · intro hp e he j
    have after : ∀ f ∈ es, ∀ j, (f.after.db.view j).Path := fun f hf j => logPath_view.mp (hp f hf j)
    have before := h.before_of_after (P := fun u => ∀ j, (u.db.view j).Path) start after e he
    obtain ⟨r, hr, moves⟩ := step_rows (h.event he).2 j
    exact logged_of_path (before j) (after e he j) hr moves
  · intro hl e he j
    have kept : ∀ s a t, (∀ j, (s.db.view j).Path) → step s a = some t →
        (∀ j, Logged ⟨s, a, t⟩ j) → ∀ j, (t.db.view j).Path :=
      fun s a t hs taken ok j => path_of_logged (hs j) (ok j) (step_created taken)
    exact logPath_view.mpr ((h.guarded_events hl start kept e he).2 j)

/-- A worker at capacity hands its job back, and no row says so. -/
def handBackRun : List Action :=
  [.post "c1" (some (.str "k")) (some (.obj [])), .resume 0 (.quiet "c1" 1), .resume 0 (.quiet "c1" 1),
    .workerSend 1 (.workerHello "w1" 4), .receive "c1" 0 (.quiet "c1" 2), .resume 0 (.quiet "c1" 2),
    .dispatchTick "c1" "w1", .resume 0 (.quiet "c1" 3), .resume 0 (.quiet "c1" 3),
    .workerSend 1 (.jobFailed ⟨1, 1, "worker at capacity", true⟩), .receive "c1" 1 (.quiet "c1" 4),
    .resume 0 (.quiet "c1" 4)]

theorem handBackRun_untrue : ∃ s, Reachable step init s ∧ ¬ LogPath s.db 1 := by
  obtain ⟨s, hs, hp⟩ : ∃ s, exec step init handBackRun = some s ∧
      decide (s.db.statusOf 1 = some .pending ∧ (s.db.transitionsOf 1).map JobTransition.edge =
        [(none, some .pending), (some .pending, some .dispatched)]) = true := exec_any (by decide)
  obtain ⟨hd, hr⟩ := of_decide_eq_true hp
  refine ⟨s, reachable_of_exec handBackRun hs, ?_⟩
  intro path
  have walk := path.walk
  simp [hr, hd, IsWalk] at walk

theorem transition_log_resultRun : ∃ s, Run step init (trace step init resultRun) s ∧
    ∀ e ∈ trace step init resultRun, ∀ j, LogPath e.after.db j := by
  obtain ⟨s, hs, _⟩ : ∃ s, exec step init resultRun = some s ∧ true = true :=
    exec_any (by decide)
  have run := run_of_exec resultRun hs
  refine ⟨s, run, (transition_log_iff run).1.mpr ?_⟩
  have quiet : (trace step init resultRun).all (fun e =>
      (e.before.cancels e.action).isNone && (e.before.fails e.action).isNone) = true := by decide
  intro e he
  have hq := List.all_eq_true.mp quiet e he
  simp only [Bool.and_eq_true, Option.isNone_iff_eq_none] at hq
  exact ⟨by simp [hq.1], by simp [hq.2], by simp [hq.2]⟩

end Cluster

end Dispatcher
