import Dispatcher.Worker.Views

namespace Dispatcher
open Tables

/-- The execution that an event ends, and how. -/
def WorkerEvent.ends : WorkerEvent → Option (Nat × Except String Json)
  | .completed i result => some (i, .ok result)
  | .threw i error => some (i, .error error)
  | _ => none

def JobDispatch.execution (msg : JobDispatch) : Execution := ⟨msg.jobId, msg.token, msg.payload⟩

namespace WorkerService

def finishes (w : WorkerService) (e : WorkerEvent) : Option (Execution × Except String Json) :=
  e.ends.bind fun p => (w.executions[p.1]?).map fun run => (run, p.2)

/-- The worker keeps this result of `(j, token)` until it is acked. -/
def Answers (w : WorkerService) (j : JobId) (token : Token) (result : Json) : Prop :=
  ∃ job, w.inFlight.lookup j = some job ∧ job.token = token ∧ job.result = some result

theorem stop_timers (w : WorkerService) (rows : List InFlightJob) :
    ∃ timers, timers.Sublist w.timers ∧ rows.foldl
      (fun w job => (w.clearTimer job.retryTimer).clearTimer job.heartbeatTimer) w =
        { w with timers } := by
  induction rows generalizing w with
  | nil => exact ⟨w.timers, List.Sublist.refl _, rfl⟩
  | cons job rest ih =>
    obtain ⟨timers, fewer, same⟩ := ih ((w.clearTimer job.retryTimer).clearTimer job.heartbeatTimer)
    exact ⟨timers, fewer.trans (List.filter_sublist.trans List.filter_sublist), same⟩

theorem stop_kept (w : WorkerService) : w.stop.inFlight = w.inFlight ∧
    w.stop.executions = w.executions ∧ w.stop.timers.Sublist w.timers ∧
    w.stop.nextTimer = w.nextTimer := by
  obtain ⟨timers, fewer, same⟩ :=
    stop_timers ({ w with running := false }.clearTimer w.reconnectTimer) w.inFlight.rows
  have stopped : w.stop =
      { w.inFlight.rows.foldl
          (fun w job => (w.clearTimer job.retryTimer).clearTimer job.heartbeatTimer)
          ({ w with running := false }.clearTimer w.reconnectTimer) with
        reconnectTimer := none, wsOpen := false } := rfl
  rw [stopped, same]
  exact ⟨rfl, rfl, fewer.trans List.filter_sublist, rfl⟩

/-- Every step keeps the handles in order; before `stop` it is one of `WorkerStep`,
and `stop` leaves the entries and the runs alone. -/
theorem handle_step {w w' : WorkerService} {e : WorkerEvent} {sends : List WorkerToCoordMsg}
    (named : w.TimersNamed) (h : w.handle e = some (w', sends)) : w'.TimersNamed ∧
    (WorkerStep w.jobView e w'.jobView sends ∨
      e = .stop ∧ sends = [] ∧ w'.inFlight = w.inFlight ∧ w'.executions = w.executions) := by
  by_cases stops : e = .stop
  · subst stops
    cases h
    obtain ⟨entries, runs, timers, next⟩ := stop_kept w
    refine ⟨⟨named.unique.sublist (timers.map _), ?_⟩, .inr ⟨rfl, rfl, entries, runs⟩⟩
    intro t ht
    rw [next]
    exact named.used t (timers.subset ht)
  · have taken : step w e = some w' := by simp [step, h]
    have sent : w.sends e = sends := by simp [WorkerService.sends, h]
    exact ⟨step_named named taken stops, .inl (sent ▸ step_view named taken stops)⟩

variable {w w' : WorkerService} {e : WorkerEvent} {sends : List WorkerToCoordMsg}

/-- A dispatch may start a run, and the end of a run takes it away. -/
inductive RunStep (w : WorkerService) (e : WorkerEvent) (runs : List Execution) : Prop where
  | same (unended : w.finishes e = none) (kept : runs = w.executions)
  | started {msg : JobDispatch} (brought : e = .message (.jobDispatch msg))
      (new : runs = w.executions ++ [msg.execution])
  | ended {i : Nat} {run : Execution} {outcome : Except String Json}
      (hi : w.executions[i]? = some run) (finish : w.finishes e = some (run, outcome))
      (left : runs = w.executions.eraseIdx i)

theorem finishes_at {i : Nat} {run : Execution} {outcome : Except String Json}
    (hi : w.executions[i]? = some run) (ends : e.ends = some (i, outcome)) :
    w.finishes e = some (run, outcome) := by
  simp [finishes, ends, hi]

theorem handle_runs (named : w.TimersNamed) (h : w.handle e = some (w', sends)) :
    RunStep w e w'.executions := by
  rcases (handle_step named h).2 with step | ⟨rfl, _, _, same⟩
  · have runs : w'.jobView.executions = w'.executions := rfl
    rw [← runs]
    generalize w'.jobView = v' at step
    cases step with
    | aside _ other =>
      refine .same ?_ rfl
      cases e with
      | completed | threw => cases other
      | _ => rfl
    | ignored | rejected | acked | beat | skipped | spent => exact .same rfl rfl
    | accepted => exact .started rfl rfl
    | returned hi | superseded hi | threw hi | failed hi => exact .ended hi (finishes_at hi rfl) rfl
    | completed hi =>
      refine .ended hi (finishes_at hi rfl) ?_
      simp only [WorkerView.schedule]
      split <;> rfl
    | retried =>
      refine .same rfl ?_
      simp only [WorkerView.schedule]
      split <;> rfl
  · exact .same rfl same

theorem answers_view {j : JobId} {token : Token} {result : Json} : w.Answers j token result ↔
    ∃ job, w.jobView.entries j = some job ∧ job.token = token ∧ job.result = some result := Iff.rfl

/-- A result is kept from the run that returned it. -/
theorem handle_answers (named : w.TimersNamed) (h : w.handle e = some (w', sends)) {j : JobId}
    {token : Token} {result : Json} (after : w'.Answers j token result) :
    w.Answers j token result ∨ ∃ run, w.finishes e = some (run, .ok result) ∧ run.jobId = j ∧
      run.token = token := by
  rcases (handle_step named h).2 with step | ⟨rfl, _, same, _⟩
  · rw [answers_view] at after
    obtain ⟨job, present, rfl, stored⟩ := after
    generalize w'.jobView = v' at step present
    have before (kept : w.jobView.entries j = some job) : w.Answers j job.token result :=
      ⟨job, kept, rfl, stored⟩
    cases step with
    | aside | ignored | rejected | returned | threw | beat | skipped | spent =>
      exact .inl (before present)
    | @accepted msg absent =>
      by_cases named : j = msg.jobId
      · subst named
        cases Option.some.inj (WorkerView.accept_self.symm.trans present)
        cases stored
      · exact .inl (before ((WorkerView.accept_of_ne named).symm.trans present))
    | acked | superseded | failed => exact .inl (before (WorkerView.entries_remove present).2)
    | @completed i run result' job' hi present' own =>
      by_cases named : j = run.jobId
      · subst named
        unfold WorkerView.schedule at present
        split at present
        · exact absurd rfl (WorkerView.entries_remove present).1
        · cases Option.some.inj (WorkerView.arm_self.symm.trans present)
          cases stored
          exact .inr ⟨run, finishes_at hi rfl, rfl, own.symm⟩
      · have kept := (WorkerView.schedule_of_ne named).symm.trans present
        exact .inl (before kept)
    | @retried timer k job' result' armed present' stored' =>
      by_cases named : j = k
      · subst named
        unfold WorkerView.schedule at present
        split at present
        · exact absurd rfl (WorkerView.entries_remove present).1
        · cases Option.some.inj (WorkerView.arm_self.symm.trans present)
          exact .inl ⟨job', present', rfl, stored⟩
      · have kept := (WorkerView.schedule_of_ne named).symm.trans present
        exact .inl (before kept)
  · obtain ⟨job, present, rest⟩ := after
    exact .inl ⟨job, same ▸ present, rest⟩

/-- A result goes out when its run returns, and again while it is kept. -/
theorem handle_results (named : w.TimersNamed) (h : w.handle e = some (w', sends)) {msg : JobResult}
    (hm : .jobResult msg ∈ sends) : w.Answers msg.jobId msg.token msg.result ∨
      ∃ run, w.finishes e = some (run, .ok msg.result) ∧ run.jobId = msg.jobId ∧
        run.token = msg.token := by
  rcases (handle_step named h).2 with step | ⟨_, silent, _⟩
  · generalize w'.jobView = v' at step
    cases step with
    | aside _ _ silent => cases silent _ hm
    | ignored | accepted | acked | returned | superseded | threw | skipped | spent => cases hm
    | rejected | beat | failed => cases List.mem_singleton.mp hm
    | completed hi present own =>
      cases List.mem_singleton.mp hm
      exact .inr ⟨_, finishes_at hi rfl, rfl, rfl⟩
    | retried armed present stored =>
      cases List.mem_singleton.mp hm
      exact .inl ⟨_, present, rfl, stored⟩
  · rw [silent] at hm
    cases hm

/-- A final failure goes out when its run throws. -/
theorem handle_failures (named : w.TimersNamed) (h : w.handle e = some (w', sends)) {msg : JobFailed}
    (hm : .jobFailed msg ∈ sends) (final : msg.temporary = false) :
    ∃ run, w.finishes e = some (run, .error msg.error) ∧ run.jobId = msg.jobId ∧
      run.token = msg.token := by
  rcases (handle_step named h).2 with step | ⟨_, silent, _⟩
  · generalize w'.jobView = v' at step
    cases step with
    | aside _ _ silent => cases silent _ hm
    | ignored | accepted | acked | returned | superseded | threw | skipped | spent => cases hm
    | completed | beat | retried => cases List.mem_singleton.mp hm
    | rejected =>
      cases List.mem_singleton.mp hm
      cases final
    | failed hi present own =>
      cases List.mem_singleton.mp hm
      exact ⟨_, finishes_at hi rfl, rfl, rfl⟩
  · rw [silent] at hm
    cases hm

end WorkerService

end Dispatcher
