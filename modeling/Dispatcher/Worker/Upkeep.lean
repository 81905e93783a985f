import Dispatcher.Worker.Views

namespace Dispatcher
open Function

namespace WorkerView

variable {v v' : WorkerView} {j : JobId} {job job' : InFlightJob}

theorem mem_clear {timer : Option TimerId} {t : Timer} :
    t ∈ (v.clear timer).timers ↔ t ∈ v.timers ∧ some t.id ≠ timer := by
  simp [clear]

/-- The timers and the entries refer to each other. -/
structure Handles (v : WorkerView) : Prop where
  unique : (v.timers.map Timer.id).Nodup
  used : ∀ t ∈ v.timers, t.id < v.next
  /-- An armed heartbeat timer is the one of a present entry with its token. -/
  heartbeat : ∀ id j token, ⟨id, .heartbeat j token⟩ ∈ v.timers →
    ∃ job, v.entries j = some job ∧ job.token = token ∧ job.heartbeatTimer = some id
  beating : ∀ j job, v.entries j = some job →
    ∃ id, job.heartbeatTimer = some id ∧ ⟨id, .heartbeat j job.token⟩ ∈ v.timers
  retry : ∀ j job id, v.entries j = some job → job.retryTimer = some id →
    id < v.next ∧ ∀ t ∈ v.timers, t.id = id → t.callback = .resultRetry j job.token

/-- An entry whose job runs, or whose result is tried again. -/
def Tended (v : WorkerView) (j : JobId) (job : InFlightJob) : Prop :=
  (∃ run ∈ v.executions, run.jobId = j ∧ run.token = job.token) ∨
  (job.result.isSome = true ∧ job.retryCount < MAX_RESULT_RETRIES ∧
    ∃ id, job.retryTimer = some id ∧ ⟨id, .resultRetry j job.token⟩ ∈ v.timers)

theorem Handles.eq_of_id (h : v.Handles) {t t' : Timer} (ht : t ∈ v.timers) (ht' : t' ∈ v.timers)
    (same : t.id = t'.id) : t = t' := List.inj_on_of_nodup_map h.unique ht ht' same

/-- Fewer entries and fewer timers: a heartbeat timer goes exactly when its entry goes. -/
theorem Handles.fewer (h : v.Handles) (timers : v'.timers.Sublist v.timers) (later : v.next ≤ v'.next)
    (entries : ∀ k job, v'.entries k = some job → v.entries k = some job)
    (kept : ∀ k job, v'.entries k = some job → ∀ id, job.heartbeatTimer = some id →
      ⟨id, .heartbeat k job.token⟩ ∈ v.timers → ⟨id, .heartbeat k job.token⟩ ∈ v'.timers)
    (gone : ∀ k job id, v.entries k = some job → job.heartbeatTimer = some id →
      ⟨id, .heartbeat k job.token⟩ ∈ v'.timers → v'.entries k = some job) : v'.Handles where
  unique := h.unique.sublist (timers.map Timer.id)
  used t ht := Nat.lt_of_lt_of_le (h.used t (timers.subset ht)) later
  heartbeat := by
    intro id k token ht
    obtain ⟨job, present, rfl, handle⟩ := h.heartbeat id k token (timers.subset ht)
    exact ⟨job, gone k job id present handle ht, rfl, handle⟩
  beating := by
    intro k job present
    obtain ⟨id, handle, armed⟩ := h.beating k job (entries k job present)
    exact ⟨id, handle, kept k job present id handle armed⟩
  retry := by
    intro k job id present handle
    obtain ⟨used, named⟩ := h.retry k job id (entries k job present) handle
    exact ⟨Nat.lt_of_lt_of_le used later, fun t ht => named t (timers.subset ht)⟩

/-- A timer that is no heartbeat goes. -/
theorem Handles.clear_retry (h : v.Handles) {id : TimerId}
    (retry : ∀ t ∈ v.timers, t.id = id → ∀ k token, t.callback ≠ .heartbeat k token) :
    (v.clear (some id)).Handles := by
  refine h.fewer List.filter_sublist (Nat.le_refl _) (fun _ _ present => present) ?_ ?_
  · intro k job _ id' _ armed
    refine mem_clear.mpr ⟨armed, ?_⟩
    intro same
    exact retry _ armed (Option.some.inj same) k job.token rfl
  · exact fun _ _ _ present _ _ => present

theorem Handles.clear_fired (h : v.Handles) {timer : TimerId} {token : Token}
    (only : ∀ t ∈ v.timers, t.id = timer → t.callback = .resultRetry j token) :
    (v.clear (some timer)).Handles := by
  refine h.clear_retry ?_
  intro t ht same k token'
  rw [only t ht same]
  exact Callback.noConfusion

theorem Handles.without (h : v.Handles) (i : Nat) : (v.without i).Handles :=
  ⟨h.unique, h.used, h.heartbeat, h.beating, h.retry⟩

/-- An entry goes with its heartbeat timer. -/
theorem Handles.drop (h : v.Handles) (present : v.entries j = some job) :
    ((v.clear job.heartbeatTimer).remove j).Handles := by
  refine h.fewer List.filter_sublist (Nat.le_refl _) ?_ ?_ ?_
  · exact fun k job' present' => (entries_remove present').2
  · intro k job' present' id handle armed
    refine mem_clear.mpr ⟨armed, ?_⟩
    intro same
    obtain ⟨id', handle', armed'⟩ := h.beating j job present
    rw [handle'] at same
    have equal := h.eq_of_id armed armed' (Option.some.inj same)
    simp only [Timer.mk.injEq, Callback.heartbeat.injEq] at equal
    exact (entries_remove present').1 equal.2.1
  · intro k job' id present' handle armed
    have other : k ≠ j := by
      rintro rfl
      cases Option.some.inj (present.symm.trans present')
      exact (mem_clear.mp armed).2 handle.symm
    simpa [remove, other] using present'

theorem Handles.arm (h : v.Handles) (present : v.entries j = some job)
    (token : job'.token = job.token) (handle : job'.heartbeatTimer = job.heartbeatTimer) :
    (v.arm j job').Handles := by
  have old : ∀ t ∈ v.timers, t.id ≠ v.next := fun t ht => Nat.ne_of_lt (h.used t ht)
  constructor
  case unique => exact WorkerService.nodup_snoc h.unique h.used
  case used =>
    intro t ht
    rcases List.mem_append.mp ht with ht | ht
    · exact Nat.lt_succ_of_lt (h.used t ht)
    · cases List.mem_singleton.mp ht
      exact Nat.lt_succ_self _
  case heartbeat =>
    intro id k t ht
    rcases List.mem_append.mp ht with ht | ht
    · obtain ⟨job₀, present₀, same, handle₀⟩ := h.heartbeat id k t ht
      by_cases named : k = j
      · subst named
        cases Option.some.inj (present.symm.trans present₀)
        exact ⟨_, arm_self, token.trans same, handle.trans handle₀⟩
      · exact ⟨job₀, (arm_of_ne named).trans present₀, same, handle₀⟩
    · cases List.mem_singleton.mp ht
  case beating =>
    intro k job₀ present₀
    by_cases named : k = j
    · subst named
      cases Option.some.inj (arm_self.symm.trans present₀)
      obtain ⟨id, handle₀, armed⟩ := h.beating k job present
      refine ⟨id, handle.trans handle₀, List.mem_append_left _ ?_⟩
      simpa [token] using armed
    · obtain ⟨id, handle₀, armed⟩ := h.beating k job₀ ((arm_of_ne named).symm.trans present₀)
      exact ⟨id, handle₀, List.mem_append_left _ armed⟩
  case retry =>
    intro k job₀ id present₀ handle₀
    by_cases named : k = j
    · subst named
      cases Option.some.inj (arm_self.symm.trans present₀)
      cases Option.some.inj handle₀
      refine ⟨Nat.lt_succ_self _, ?_⟩
      intro t ht same
      rcases List.mem_append.mp ht with ht | ht
      · exact absurd same (old t ht)
      · cases List.mem_singleton.mp ht
        rfl
    · obtain ⟨used, only⟩ := h.retry k job₀ id ((arm_of_ne named).symm.trans present₀) handle₀
      refine ⟨Nat.lt_succ_of_lt used, ?_⟩
      intro t ht same
      rcases List.mem_append.mp ht with ht | ht
      · exact only t ht same
      · cases List.mem_singleton.mp ht
        exact absurd same (Nat.ne_of_gt used)

theorem Handles.schedule (h : v.Handles) (present : v.entries j = some job)
    (token : job'.token = job.token) (handle : job'.heartbeatTimer = job.heartbeatTimer) :
    (v.schedule j job').Handles := by
  unfold WorkerView.schedule
  split
  · rw [handle]
    exact h.drop present
  · exact h.arm present token handle

theorem Handles.accept (h : v.Handles) {msg : JobDispatch} (absent : v.entries msg.jobId = none) :
    (v.accept msg).Handles := by
  constructor
  case unique => exact WorkerService.nodup_snoc h.unique h.used
  case used =>
    intro t ht
    rcases List.mem_append.mp ht with ht | ht
    · exact Nat.lt_succ_of_lt (h.used t ht)
    · cases List.mem_singleton.mp ht
      exact Nat.lt_succ_self _
  case heartbeat =>
    intro id k t ht
    rcases List.mem_append.mp ht with ht | ht
    · obtain ⟨job, present, same, handle⟩ := h.heartbeat id k t ht
      have named : k ≠ msg.jobId := by
        rintro rfl
        cases absent.symm.trans present
      exact ⟨job, (accept_of_ne named).trans present, same, handle⟩
    · cases List.mem_singleton.mp ht
      exact ⟨_, accept_self, rfl, rfl⟩
  case beating =>
    intro k job present
    by_cases named : k = msg.jobId
    · subst named
      cases Option.some.inj (accept_self.symm.trans present)
      exact ⟨v.next, rfl, List.mem_append_right _ (List.mem_singleton.mpr rfl)⟩
    · obtain ⟨id, handle, armed⟩ := h.beating k job ((accept_of_ne named).symm.trans present)
      exact ⟨id, handle, List.mem_append_left _ armed⟩
  case retry =>
    intro k job id present handle
    by_cases named : k = msg.jobId
    · subst named
      cases Option.some.inj (accept_self.symm.trans present)
      cases handle
    · obtain ⟨used, only⟩ := h.retry k job id ((accept_of_ne named).symm.trans present) handle
      refine ⟨Nat.lt_succ_of_lt used, ?_⟩
      intro t ht same
      rcases List.mem_append.mp ht with ht | ht
      · exact only t ht same
      · cases List.mem_singleton.mp ht
        exact absurd same (Nat.ne_of_gt used)

theorem mem_eraseIdx_of_ne {l : List α} {i : Nat} {x y : α} (hi : l[i]? = some x) (hy : y ∈ l)
    (ne : y ≠ x) : y ∈ l.eraseIdx i := by
  obtain ⟨k, hk⟩ := List.mem_iff_getElem?.mp hy
  refine List.mem_eraseIdx_iff_getElem?.mpr ⟨k, ?_, hk⟩
  rintro rfl
  cases hi.symm.trans hk
  exact ne rfl

/-- An entry keeps its executions and its retry timer. -/
theorem Tended.keep {k : JobId} (h : v.Tended k job)
    (executions : ∀ run ∈ v.executions, run.jobId = k → run.token = job.token → run ∈ v'.executions)
    (timers : ∀ id, job.retryTimer = some id → job.result.isSome = true →
      ⟨id, .resultRetry k job.token⟩ ∈ v.timers → ⟨id, .resultRetry k job.token⟩ ∈ v'.timers) :
    v'.Tended k job := by
  rcases h with ⟨run, hr, hj, ht⟩ | ⟨stored, count, id, handle, armed⟩
  · exact .inl ⟨run, executions run hr hj ht, hj, ht⟩
  · exact .inr ⟨stored, count, id, handle, timers id handle stored armed⟩

/-- Clearing the heartbeat timer of an entry stops no retry. -/
theorem Tended.clear_heartbeat (handles : v.Handles) (present : v.entries j = some job) {k : JobId}
    (h : v.Tended k job') : (v.clear job.heartbeatTimer).Tended k job' := by
  refine h.keep (fun _ hr _ _ => hr) fun id _ _ armed => mem_clear.mpr ⟨armed, ?_⟩
  intro same
  obtain ⟨id', handle, beats⟩ := handles.beating j job present
  rw [handle] at same
  cases handles.eq_of_id armed beats (Option.some.inj same)

/-- Clearing the retry timer of one entry stops the retries of no other. -/
theorem Tended.clear_retry {timer : TimerId} {token : Token}
    (only : ∀ t ∈ v.timers, t.id = timer → t.callback = .resultRetry j token) {k : JobId}
    (other : k = j → job.token = token → job.result = none) (h : v.Tended k job) :
    (v.clear (some timer)).Tended k job := by
  refine h.keep (fun _ hr _ _ => hr) fun id _ stored armed => mem_clear.mpr ⟨armed, ?_⟩
  intro same
  have callback := only _ armed (Option.some.inj same)
  simp only [Callback.resultRetry.injEq] at callback
  rw [other callback.1 callback.2] at stored
  cases stored

/-- The end of one run is no end of another. -/
theorem Tended.without {i : Nat} {run : Execution} (hi : v.executions[i]? = some run) {k : JobId}
    (other : run.jobId = k → job.token ≠ run.token) (h : v.Tended k job) :
    (v.without i).Tended k job := by
  refine h.keep (fun run' hr hj ht => mem_eraseIdx_of_ne hi hr ?_) fun _ _ _ armed => armed
  rintro rfl
  exact other hj ht.symm

/-- The entries of all jobs but `j` are tended. -/
def TendedBut (v : WorkerView) (j : JobId) : Prop :=
  ∀ k job, k ≠ j → v.entries k = some job → v.Tended k job

def AllTended (v : WorkerView) : Prop := ∀ k job, v.entries k = some job → v.Tended k job

theorem AllTended.without (h : v.AllTended) {i : Nat} {run : Execution}
    (hi : v.executions[i]? = some run) : (v.without i).TendedBut run.jobId :=
  fun k job other present => (h k job present).without hi fun same => absurd same.symm other

theorem TendedBut.drop (h : v.TendedBut j) (handles : v.Handles) (present : v.entries j = some job) :
    ((v.clear job.heartbeatTimer).remove j).AllTended := by
  intro k job' present'
  obtain ⟨other, before⟩ := entries_remove present'
  exact (h k job' other before).clear_heartbeat handles present

theorem TendedBut.schedule (h : v.TendedBut j) (handles : v.Handles)
    (present : v.entries j = some job) (handle : job'.heartbeatTimer = job.heartbeatTimer)
    (stored : job'.result.isSome = true) : (v.schedule j job').AllTended := by
  unfold WorkerView.schedule
  split
  · rw [handle]
    exact h.drop handles present
  next count =>
    intro k job₀ present₀
    by_cases named : k = j
    · subst named
      cases Option.some.inj (arm_self.symm.trans present₀)
      exact .inr ⟨stored, Nat.lt_of_not_le count, v.next, rfl,
        List.mem_append_right _ (List.mem_singleton.mpr rfl)⟩
    · rw [arm_of_ne named] at present₀
      exact (h k job₀ named present₀).keep (fun _ hr _ _ => hr)
        fun _ _ _ armed => List.mem_append_left _ armed

theorem AllTended.accept (h : v.AllTended) (msg : JobDispatch) : (v.accept msg).AllTended := by
  intro k job present
  by_cases named : k = msg.jobId
  · subst named
    cases Option.some.inj (accept_self.symm.trans present)
    exact .inl ⟨_, List.mem_append_right _ (List.mem_singleton_self _), rfl, rfl⟩
  · rw [accept_of_ne named] at present
    exact (h k job present).keep (fun _ hr _ _ => List.mem_append_left _ hr)
      fun _ _ _ armed => List.mem_append_left _ armed

end WorkerView

open WorkerView

/-- No timer beats for an entry that is gone, and no entry is left alone. -/
structure Upkeep (v : WorkerView) : Prop where
  handles : v.Handles
  tended : v.AllTended

/-- No step leaves a timer or an entry alone. -/
theorem WorkerStep.upkeep {v v' : WorkerView} {e : WorkerEvent} {sends : List WorkerToCoordMsg}
    (h : Upkeep v) (step : WorkerStep v e v' sends) : Upkeep v' := by
  obtain ⟨handles, tended⟩ := h
  cases step with
  | aside later =>
    refine ⟨handles.fewer (List.Sublist.refl _) later (fun _ _ present => present) ?_ ?_, tended⟩
    · exact fun _ _ _ _ _ armed => armed
    · exact fun _ _ _ present _ _ => present
  | ignored | rejected | beat | skipped => exact ⟨handles, tended⟩
  | accepted absent => exact ⟨handles.accept absent, tended.accept _⟩
  | @acked j job present =>
    have retry : ∀ id, job.retryTimer = some id →
        ∀ t ∈ v.timers, t.id = id → t.callback = .resultRetry j job.token :=
      fun id handle => (handles.retry j job id present handle).2
    have cleared : (v.clear job.retryTimer).Handles ∧ (v.clear job.retryTimer).TendedBut j := by
      cases handle : job.retryTimer with
      | none =>
        have same : v.clear none = v := by simp [clear]
        rw [same]
        exact ⟨handles, fun k job' _ present' => tended k job' present'⟩
      | some id =>
        refine ⟨handles.clear_fired (retry id handle), ?_⟩
        intro k job' other present'
        exact (tended k job' present').clear_retry (retry id handle)
          fun named => absurd named other
    exact ⟨cleared.1.drop present, cleared.2.drop cleared.1 present⟩
  | @returned i run result hi absent =>
    refine ⟨handles.without i, ?_⟩
    intro k job present
    refine (tended k job present).without hi ?_
    rintro rfl
    cases absent.symm.trans present
  | @superseded i run result current hi present other =>
    have left := handles.without i
    exact ⟨left.drop present, (tended.without hi).drop left present⟩
  | @completed i run result job hi present own =>
    have left := handles.without i
    exact ⟨left.schedule present rfl rfl, (tended.without hi).schedule left present rfl rfl⟩
  | @threw i run error hi other =>
    refine ⟨handles.without i, ?_⟩
    intro k job present
    refine (tended k job present).without hi ?_
    rintro rfl
    exact other job present
  | @failed i run error job hi present own =>
    have left := handles.without i
    exact ⟨left.drop present, (tended.without hi).drop left present⟩
  | @retried timer j job result armed present stored =>
    have only : ∀ t ∈ v.timers, t.id = timer → t.callback = .resultRetry j job.token :=
      fun t ht same => congrArg Timer.callback (handles.eq_of_id ht armed same)
    have left := handles.clear_fired only
    have others : (v.clear (some timer)).TendedBut j := fun k job' named present' =>
      (tended k job' present').clear_retry only fun same => absurd same named
    refine ⟨left.schedule present rfl rfl, others.schedule left present rfl ?_⟩
    rw [stored]
    rfl
  | @spent timer j token armed other =>
    have only : ∀ t ∈ v.timers, t.id = timer → t.callback = .resultRetry j token :=
      fun t ht same => congrArg Timer.callback (handles.eq_of_id ht armed same)
    refine ⟨handles.clear_fired only, ?_⟩
    intro k job present
    refine (tended k job present).clear_retry only ?_
    rintro rfl
    exact other job present

end Dispatcher
