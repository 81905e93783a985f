import Dispatcher.Proofs.CommitSafety

namespace Dispatcher
open Tables Runs

/-- The status changes that the system is meant to make. -/
def LegalEdge : JobStatus → JobStatus → Bool
  | .pending, .dispatched | .dispatched, .pending | .dispatched, .succeeded | .dispatched, .failed
  | .pending, .cancelled => true
  | _, _ => false

/-- A `DELETE /jobs/:id` was answered with 200. -/
def Cluster.Deleted (s : Cluster) (j : JobId) : Prop :=
  ∃ x ∈ s.answers, x.request = .delete j ∧ x.response.status = 200

structure LegalRun (es : List (Event Cluster Action)) : Prop where
  edges : ∀ e ∈ es, ∀ j a b, e.before.db.statusOf j = some a → e.after.db.statusOf j = some b →
    a ≠ b → LegalEdge a b = true
  terminal : ∀ e ∈ es, ∀ j a, e.before.db.statusOf j = some a → a.terminal = true →
    e.after.db.statusOf j = some a
  unstarted : ∀ e ∈ es, ∀ j a, e.before.db.statusOf j = some a →
    e.after.db.statusOf j = some .cancelled → a = .pending ∨ a = .cancelled
  uncommitted : ∀ e ∈ es, ∀ j, e.after.Deleted j → e.after.db.acceptedCommits j = []

/-- The cancel transaction, if the step runs one, still finds its job unstarted
or finds it cancelled already. -/
def CancelsUnstarted (e : Event Cluster Action) : Prop :=
  ∀ j, e.before.cancels e.action = some j →
    e.before.db.statusOf j = some .pending ∨ e.before.db.statusOf j = some .cancelled

theorem patched_status {v : JobView} {r : Job} (hj : v.job = some r) (patch : Db.JobPatch) :
    (v.patchDispatched patch).map Job.status =
      some (if r.status = .dispatched then patch.status else r.status) := by
  simp only [JobView.patchDispatched, hj, Option.map_some, Option.some.injEq]
  split <;> rfl

/-- Every event but a cancel keeps a job's status or moves it along a legal edge. -/
theorem apply_edge {n : Nat} {v : JobView} {j : JobId} {e : JobEvent} (he : e.Enabled n v)
    (ha : v.status = some a) (hb : (e.apply j v).status = some b)
    (hc : ∀ ctx, e = .cancelled ctx → a = .pending ∨ a = .cancelled) :
    a = b ∨ LegalEdge a b = true := by
  obtain ⟨r, hj, rfl⟩ := Option.map_eq_some_iff.mp ha
  have moved : ∀ patch : Db.JobPatch, (v.patchDispatched patch).map Job.status = some b →
      LegalEdge .dispatched patch.status = true → r.status = b ∨ LegalEdge r.status b = true := by
    intro patch hp hl
    rw [patched_status hj, Option.some.injEq] at hp
    split at hp
    · rename_i hd
      rw [hd, ← hp]
      exact .inr hl
    · exact .inl hp
  cases e with
  | submitted ctx key payload =>
    have hn : v.job = none := he
    rw [hn] at hj
    cases hj
  | dispatched ctx w t =>
    have hp : r.status = .pending := Option.some.inj (ha.symm.trans he.1)
    have hd : b = .dispatched := by
      simpa [JobEvent.apply, JobView.status, hj, Db.JobPatch.on] using hb.symm
    rw [hp, hd]
    exact .inr rfl
  | accepted ctx w t result => exact moved _ hb rfl
  | requeued ctx => exact moved _ hb rfl
  | failed ctx => exact moved _ hb rfl
  | reaped ctx => exact moved _ hb rfl
  | cancelled ctx =>
    have hd : b = .cancelled := by
      simpa [JobEvent.apply, JobView.status, hj, Db.JobPatch.on] using hb.symm
    subst hd
    rcases hc ctx rfl with hp | hp <;> simp [hp, LegalEdge]
  | discarded => exact .inl (Option.some.inj (ha.symm.trans hb))
  | extended expiresAt => exact .inl (Option.some.inj (ha.symm.trans hb))

theorem resume_deleted {t : Task} {ctx : Ctx} {wsOf : WorkerId → Option SocketId} {db : Db}
    {x : Answer} {j : JobId} (hx : x ∈ (t.resume ctx wsOf db).answers)
    (hr : x.request = .delete j) (h : x.response.status = 200) : t = .cancelTx j := by
  cases t with
  | cancelTx jobId =>
    cases List.mem_singleton.mp hx
    cases hr
    rfl
  | cancelLookup jobId =>
    simp only [Task.resume] at hx
    split at hx
    · cases List.mem_singleton.mp hx
      cases h
    · split at hx
      · cases hx
      · cases List.mem_singleton.mp hx
        cases h
  | submitLookup | submitTx =>
    simp only [Task.resume] at hx
    split at hx
    all_goals first
      | cases hx; done
      | cases List.mem_singleton.mp hx; cases hr
  | submitWinner key payload =>
    cases List.mem_singleton.mp hx
    cases hr
  | resultLookup | resultTx | resultReAck | dispatchTx | dispatchSend =>
    simp only [Task.resume] at hx
    repeat' split at hx
    all_goals cases hx
  | helloUpsert | failedTx | heartbeatUpdate | reaperTx => cases hx

theorem fail_deleted {t : Task} {error : String} {db : Db} {x : Answer} {j : JobId}
    (hx : x ∈ (t.fail db error).answers) (hr : x.request = .delete j) :
    x.response.status ≠ 200 := by
  intro h
  cases t with
  | submitTx | submitWinner =>
    cases List.mem_singleton.mp hx
    cases hr
  | cancelLookup | cancelTx =>
    cases List.mem_singleton.mp hx
    cases h
  | _ => cases hx

namespace Cluster

/-- Only a cancel transaction answers a DELETE with 200. -/
theorem step_deleted {s s' : Cluster} {a : Action} {j : JobId} (h : step s a = some s')
    (hd : s'.Deleted j) : s.Deleted j ∨ s.cancels a = some j := by
  obtain ⟨x, hx, hr, hs⟩ := hd
  rw [step_answers h] at hx
  rcases List.mem_append.mp hx with hx | hx
  · exact .inl ⟨x, hx, hr, hs⟩
  cases a with
  | resume i ctx =>
    simp only [answered] at hx
    cases hi : s.tasks[i]? with
    | none => simp [hi] at hx
    | some q =>
      simp only [hi] at hx
      have ht := resume_deleted hx hr hs
      exact .inr (by simp [cancels, resumed, hi, ht])
  | fail i error =>
    simp only [answered] at hx
    split at hx
    · exact absurd hs (fail_deleted hx hr)
    · cases hx
  | post c key payload =>
    simp only [answered] at hx
    split at hx
    · cases hx
    · cases List.mem_singleton.mp hx
      cases hr
  | _ => cases hx

/-- A cancelled job has no commit, and a job answered as cancelled is cancelled. -/
def CancelSafe (s : Cluster) (j : JobId) : Prop :=
  (s.db.statusOf j = some .cancelled → (s.db.view j).commits = []) ∧
    (s.Deleted j → s.db.statusOf j = some .cancelled)

/-- A step that does not cancel a job keeps a terminal status, and comes to
CANCELLED only from it. -/
theorem step_edge {s s' : Cluster} {a : Action} {j : JobId} (h : step s a = some s')
    (ok : CancelsUnstarted ⟨s, a, s'⟩) (ha : s.db.statusOf j = some x)
    (hb : s'.db.statusOf j = some y) : x = y ∨ LegalEdge x y = true := by
  rw [← Db.view_status] at hb
  rw [step_view h j] at hb
  cases he : s.event a j with
  | none =>
    rw [he] at hb
    exact .inl (Option.some.inj (ha.symm.trans hb))
  | some e =>
    rw [he] at hb
    refine apply_edge (step_enabled he) ha hb ?_
    rintro ctx rfl
    have hc := ok j (cancels_event.mpr ⟨ctx, he⟩)
    rcases hc with hc | hc
    · exact .inl (Option.some.inj (ha.symm.trans hc))
    · exact .inr (Option.some.inj (ha.symm.trans hc))

/-- A job that is there stays there. -/
theorem step_status {s s' : Cluster} {a : Action} {j : JobId} (h : step s a = some s')
    (ha : s.db.statusOf j = some x) : ∃ y, s'.db.statusOf j = some y := by
  have hj : (s.db.view j).job.isSome := by
    obtain ⟨r, hr, _⟩ := Option.map_eq_some_iff.mp ha
    simp [Db.view, hr]
  have hj' : (s'.db.view j).job.isSome := by
    rw [step_view h j]
    exact after_job hj _
  obtain ⟨r, hr⟩ := Option.isSome_iff_exists.mp hj'
  exact ⟨r.status, congrArg (Option.map Job.status) hr⟩

theorem legal_of_terminal {x y : JobStatus} (h : LegalEdge x y = true) : x.terminal = false := by
  cases x <;> first | rfl | cases h

theorem legal_to_cancelled {x : JobStatus} (h : LegalEdge x .cancelled = true) : x = .pending := by
  cases x <;> first | rfl | cases h

theorem cancelled_status {v : JobView} (h : v.job.isSome) (ctx : Ctx) (j : JobId) :
    ((JobEvent.cancelled ctx).apply j v).status = some .cancelled := by
  obtain ⟨r, hr⟩ := Option.isSome_iff_exists.mp h
  simp [JobEvent.apply, JobView.status, hr, Db.JobPatch.on]

theorem cancels_found {s : Cluster} {a : Action} {j : JobId} (hs : s.Found)
    (h : s.cancels a = some j) : (s.db.view j).job.isSome := by
  unfold cancels at h
  split at h
  · rename_i ctx k hr
    cases h
    obtain ⟨c, ht⟩ := resumed_task hr
    exact hs.tasks _ ht _ rfl
  · cases h

/-- A cancel transaction ends with the job CANCELLED, whatever it was. -/
theorem cancels_status {s s' : Cluster} {a : Action} {j : JobId} (hs : s.Found)
    (h : step s a = some s') (hc : s.cancels a = some j) : s'.db.statusOf j = some .cancelled := by
  obtain ⟨ctx, he⟩ := cancels_event.mp hc
  rw [← Db.view_status, step_view h j, he]
  exact cancelled_status (cancels_found hs hc) ctx j

theorem commits_of_cancelled {s s' : Cluster} {a : Action} {j : JobId}
    (hc : Consistent s.db.fencingSeq (s.db.view j)) (hs : s.CancelSafe j)
    (h : step s a = some s') (ok : CancelsUnstarted ⟨s, a, s'⟩)
    (hx : s'.db.statusOf j = some .cancelled) : (s'.db.view j).commits = [] := by
  have before : (s.db.view j).commits = [] := by
    cases ha : s.db.statusOf j with
    | none =>
      have hj : (s.db.view j).job = none := Option.map_eq_none_iff.mp ha
      exact (hc.absent hj).2.2
    | some x =>
      rcases step_edge h ok ha hx with he | he
      · exact hs.1 (he ▸ ha)
      · have hp : (s.db.view j).status = some .pending := legal_to_cancelled he ▸ ha
        exact (hc.undecided (live_of_status hp rfl)).1
  have hv := step_view h j
  rw [← Db.view_status, hv] at hx
  rw [hv]
  cases he : s.event a j with
  | none => exact before
  | some e =>
    rw [he] at hx
    have enabled := step_enabled he
    refine (apply_undecided (j := j) enabled ?_).1.trans before
    rintro ctx w t r rfl
    obtain ⟨row, hj, hs⟩ := Option.map_eq_some_iff.mp enabled.1
    simp [JobView.after, JobEvent.apply, JobView.status, JobView.patchDispatched, hj, hs,
      Db.JobPatch.on] at hx

/-- Where no cancel is overtaken, a cancelled job stays without a commit. -/
theorem cancelSafe_step {s s' : Cluster} {a : Action} {j : JobId} (known : Reachable step init s)
    (hs : s.CancelSafe j) (h : step s a = some s') (ok : CancelsUnstarted ⟨s, a, s'⟩) :
    s'.CancelSafe j := by
  refine ⟨commits_of_cancelled (consistent_reachable known j) hs h ok, ?_⟩
  intro hd
  rcases step_deleted h hd with hd | hd
  · have ha := hs.2 hd
    obtain ⟨y, hy⟩ := step_status h ha
    rcases step_edge h ok ha hy with he | he
    · exact he ▸ hy
    · have hl := legal_of_terminal he
      cases hl
  · exact cancels_status (found_reachable known) h hd

/-- Status changes are legal in exactly the runs whose cancel transactions all
find their job unstarted. -/
theorem status_changes_legal_iff {es : List (Event Cluster Action)} {s : Cluster}
    (h : Run step init es s) : LegalRun es ↔ ∀ e ∈ es, CancelsUnstarted e := by
  constructor
  · intro legal e he j hc
    obtain ⟨known, taken⟩ := h.event he
    have found := found_reachable known
    obtain ⟨r, hr⟩ := Option.isSome_iff_exists.mp (cancels_found found hc)
    have ha : e.before.db.statusOf j = some r.status := congrArg (Option.map Job.status) hr
    have hb := cancels_status found taken hc
    rcases legal.unstarted e he j _ ha hb with hp | hp
    · exact .inl (hp ▸ ha)
    · exact .inr (hp ▸ ha)
  · intro ok
    have safe : ∀ e ∈ es, ∀ j, e.after.CancelSafe j := by
      intro e he
      have kept : ∀ s a t, (Reachable step init s ∧ ∀ j, s.CancelSafe j) → step s a = some t →
          CancelsUnstarted ⟨s, a, t⟩ → Reachable step init t ∧ ∀ j, t.CancelSafe j := by
        rintro s a t ⟨known, hs⟩ taken hok
        exact ⟨known.snoc taken, fun j => cancelSafe_step known (hs j) taken hok⟩
      have start : Reachable step init init ∧ ∀ j, init.CancelSafe j := by
        refine ⟨.refl, fun j => ⟨fun _ => rfl, ?_⟩⟩
        rintro ⟨x, hx, _⟩
        cases hx
      exact (h.guarded_events ok start kept e he).2.2
    have edge : ∀ e ∈ es, ∀ j a b, e.before.db.statusOf j = some a →
        e.after.db.statusOf j = some b → a = b ∨ LegalEdge a b = true :=
      fun e he j a b ha hb => step_edge (h.event he).2 (ok e he) ha hb
    constructor
    · intro e he j a b ha hb hne
      exact (edge e he j a b ha hb).resolve_left hne
    · intro e he j a ha ht
      obtain ⟨y, hy⟩ := step_status (h.event he).2 ha
      rcases edge e he j a y ha hy with hx | hx
      · exact hx ▸ hy
      · rw [legal_of_terminal hx] at ht
        cases ht
    · intro e he j a ha hb
      rcases edge e he j a _ ha hb with hx | hx
      · exact .inr hx
      · exact .inl (legal_to_cancelled hx)
    · intro e he j hd
      rw [acceptedCommits_view (consistent_reachable (h.event_after he) j)]
      obtain ⟨committed, cancelled⟩ := safe e he j
      exact committed (cancelled hd)

/-- A job is cancelled after its result was accepted: the DELETE read its status
before the dispatch. -/
def cancelRaceRun : List Action :=
  [.post "c1" (some (.str "k")) (some (.obj [])), .resume 0 (.quiet "c1" 1), .resume 0 (.quiet "c1" 1),
    .workerSend 1 (.workerHello "w1" 4), .receive "c1" 0 (.quiet "c1" 2), .resume 0 (.quiet "c1" 2),
    .delete "c2" 1, .resume 0 (.quiet "c2" 3),
    .dispatchTick "c1" "w1", .resume 1 (.quiet "c1" 4), .resume 1 (.quiet "c1" 4),
    .workerSend 1 (.jobResult ⟨1, 1, .obj []⟩), .receive "c1" 1 (.quiet "c1" 5),
    .resume 1 (.quiet "c1" 5), .resume 1 (.quiet "c1" 5), .resume 0 (.quiet "c2" 6)]

theorem cancelRaceRun_illegal : ∃ s, Run step init (trace step init cancelRaceRun) s ∧
    ¬ LegalRun (trace step init cancelRaceRun) := by
  obtain ⟨s, hs, _⟩ : ∃ s, exec step init cancelRaceRun = some s ∧ true = true :=
    exec_any (by decide)
  refine ⟨s, run_of_exec cancelRaceRun hs, ?_⟩
  intro legal
  have left : (trace step init cancelRaceRun).any (fun e =>
      decide (e.before.db.statusOf 1 = some .succeeded) &&
      decide (e.after.db.statusOf 1 = some .cancelled)) = true := by decide
  obtain ⟨e, he, hx⟩ := List.any_eq_true.mp left
  simp only [Bool.and_eq_true, decide_eq_true_eq] at hx
  have hk := legal.terminal e he 1 _ hx.1 rfl
  rw [hx.2] at hk
  cases hk

def cancelRun : List Action :=
  [.post "c1" (some (.str "k")) (some (.obj [])), .resume 0 (.quiet "c1" 1), .resume 0 (.quiet "c1" 1),
    .delete "c2" 1, .resume 0 (.quiet "c2" 2), .resume 0 (.quiet "c2" 3)]

theorem cancelRun_legal : ∃ s, Run step init (trace step init cancelRun) s ∧
    s.db.statusOf 1 = some .cancelled ∧ LegalRun (trace step init cancelRun) := by
  obtain ⟨s, hs, hp⟩ : ∃ s, exec step init cancelRun = some s ∧
      decide (s.db.statusOf 1 = some .cancelled) = true := exec_any (by decide)
  have run := run_of_exec cancelRun hs
  refine ⟨s, run, of_decide_eq_true hp, (status_changes_legal_iff run).mpr ?_⟩
  have unstarted : (trace step init cancelRun).all (fun e =>
      (e.before.cancels e.action).all fun j =>
        decide (e.before.db.statusOf j = some .pending)) = true := by decide
  intro e he j hc
  have hp := List.all_eq_true.mp unstarted e he
  simp only [hc, Option.all_some, decide_eq_true_eq] at hp
  exact .inl hp

end Cluster

end Dispatcher
