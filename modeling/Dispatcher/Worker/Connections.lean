import Dispatcher.Worker.Executions
import Dispatcher.Worker.Tokens

namespace Dispatcher
open Tables WorkerView

/-- The entry keeps this handle. -/
def InFlightJob.Holds (job : InFlightJob) (id : TimerId) : Prop :=
  job.retryTimer = some id ∨ job.heartbeatTimer = some id

def WorkerEvent.connection : WorkerEvent → Bool
  | .start _ | .stop | .closed _ | .reconnect .. => true
  | .opened _ | .message _ | .completed .. | .threw .. | .fire _ => false

theorem schedule_holds {v : WorkerView} {j k : JobId} {job job₀ job' : InFlightJob} {id : TimerId}
    (present : v.entries j = some job₀) (after : (v.schedule j job).entries k = some job')
    (held : job'.Holds id) (same : ∀ id, job.Holds id → job₀.Holds id) :
    v.next ≤ id ∨ ∃ job, v.entries k = some job ∧ job.Holds id := by
  by_cases named : k = j
  · subst named
    unfold WorkerView.schedule at after
    split at after
    · exact absurd rfl (entries_remove after).1
    · cases Option.some.inj (arm_self.symm.trans after)
      rcases held with held | held
      · cases held
        exact .inl (Nat.le_refl _)
      · exact .inr ⟨job₀, present, same id (.inr held)⟩
  · exact .inr ⟨job', (schedule_of_ne named).symm.trans after, held⟩

/-- An entry's handle is one that it had before, or a new one. -/
theorem WorkerStep.holds {v v' : WorkerView} {e : WorkerEvent} {sends : List WorkerToCoordMsg}
    (step : WorkerStep v e v' sends) {k : JobId} {job' : InFlightJob} {id : TimerId}
    (after : v'.entries k = some job') (held : job'.Holds id) :
    v.next ≤ id ∨ ∃ job, v.entries k = some job ∧ job.Holds id := by
  cases step with
  | aside | ignored | rejected | beat | skipped | returned | threw | spent =>
    exact .inr ⟨job', after, held⟩
  | @accepted msg absent =>
    by_cases named : k = msg.jobId
    · subst named
      cases Option.some.inj (accept_self.symm.trans after)
      rcases held with held | held
      · cases held
      · cases held
        exact .inl (Nat.le_refl _)
    · exact .inr ⟨job', (accept_of_ne named).symm.trans after, held⟩
  | acked | superseded | failed => exact .inr ⟨job', (entries_remove after).2, held⟩
  | @completed i run result job hi present =>
    exact schedule_holds (v := v.without i) present after held fun _ held => held
  | @retried timer j job result armed present =>
    exact schedule_holds (v := v.clear (some timer)) present after held fun _ held => held

namespace WorkerService

def reconnects (w : WorkerService) : List Timer := w.timers.filter fun t => t.callback = .reconnect

def Apart (w : WorkerService) : Prop :=
  ∀ t ∈ w.reconnects, ∀ j job, w.inFlight.lookup j = some job → ¬job.Holds t.id

structure Calm (w w' : WorkerService) : Prop where
  ws : w'.ws = w.ws
  running : w'.running = w.running
  handle : w'.reconnectTimer = w.reconnectTimer
  armed : w'.reconnects = w.reconnects

variable {w w' u : WorkerService}

theorem Calm.refl : Calm w w := ⟨rfl, rfl, rfl, rfl⟩

theorem Calm.trans (h : Calm w w') (h' : Calm w' u) : Calm w u :=
  ⟨h'.ws.trans h.ws, h'.running.trans h.running, h'.handle.trans h.handle, h'.armed.trans h.armed⟩

theorem Calm.clearTimer {timer : Option TimerId} (other : ∀ t ∈ w.reconnects, some t.id ≠ timer) :
    Calm w (w.clearTimer timer) := by
  refine ⟨rfl, rfl, rfl, ?_⟩
  rw [reconnects, WorkerService.clearTimer, List.filter_filter, reconnects]
  apply List.filter_congr
  intro t ht
  by_cases reconnect : t.callback = .reconnect
  · simp [reconnect, other t (List.mem_filter.mpr ⟨ht, decide_eq_true reconnect⟩)]
  · simp [reconnect]

theorem Calm.setTimer {callback : Callback} (other : callback ≠ .reconnect) :
    Calm w (w.setTimer callback).2 := by
  refine ⟨rfl, rfl, rfl, ?_⟩
  simp [reconnects, WorkerService.setTimer, List.filter_append, other]

/-- Nothing but the timers and the fields of the connection matters. -/
theorem Calm.same (ws : w'.ws = w.ws) (running : w'.running = w.running)
    (handle : w'.reconnectTimer = w.reconnectTimer) (timers : w'.timers = w.timers) : Calm w w' :=
  ⟨ws, running, handle, by rw [reconnects, timers, reconnects]⟩

theorem Apart.clear (h : w.Apart) {j : JobId} {job : InFlightJob}
    (present : w.inFlight.lookup j = some job) {timer : Option TimerId}
    (held : ∀ id, timer = some id → job.Holds id) : Calm w (w.clearTimer timer) :=
  .clearTimer fun t ht same => h t ht j job present (held t.id same.symm)

theorem Apart.modify (h : w.Apart) (j : JobId) {f : InFlightJob → InFlightJob}
    (hf : ∀ job, (f job).jobId = job.jobId) (kept : ∀ job id, (f job).Holds id → job.Holds id) :
    (w.modify j f hf).Apart := by
  intro t ht k job' present held
  rw [WorkerService.modify, Table.lookup_update] at present
  obtain ⟨job, found, same⟩ := Option.map_eq_some_iff.mp present
  refine h t ht k job found ?_
  split at same
  · subst same
    exact kept job t.id held
  · subst same
    exact held

theorem scheduleResultRetry_calm (h : w.Apart) (j : JobId) (token : Token) :
    Calm w (w.scheduleResultRetry j token) := by
  unfold scheduleResultRetry
  split
  · exact .refl
  next job present =>
    split
    · exact (h.clear present fun id same => .inr same).trans (.same rfl rfl rfl rfl)
    · exact (Calm.setTimer (by simp)).trans (.same rfl rfl rfl rfl)

theorem route_calm (h : w.Apart) (msg : CoordToWorkerMsg) : Calm w (w.route msg).1 := by
  cases msg with
  | ping => exact .refl
  | setConcurrency limit => exact .same rfl rfl rfl rfl
  | jobAck j =>
    simp only [route, handleAck]
    split
    · exact .refl
    next job present =>
      have first : Calm w (w.clearTimer job.retryTimer) := h.clear present fun id same => .inl same
      have second : Calm (w.clearTimer job.retryTimer)
          ((w.clearTimer job.retryTimer).clearTimer job.heartbeatTimer) := by
        refine .clearTimer fun t ht same => ?_
        rw [first.armed] at ht
        exact h t ht j job present (.inr same.symm)
      exact (first.trans second).trans (.same rfl rfl rfl rfl)
  | jobDispatch msg =>
    simp only [route, handleDispatch]
    split
    · exact .refl
    split
    · exact .refl
    · let inserted : WorkerService :=
        { w with inFlight := w.inFlight.insert { jobId := msg.jobId, token := msg.token } }
      have first : Calm w inserted := .same rfl rfl rfl rfl
      have second : Calm inserted (inserted.setTimer (.heartbeat msg.jobId msg.token)).2 :=
        .setTimer (by simp)
      exact (first.trans second).trans (.same rfl rfl rfl rfl)

theorem completed_calm (h : w.Apart) (run : Execution) (result : Json) :
    Calm w (w.completed run result).1 := by
  unfold completed
  split
  · exact .refl
  next current present =>
    split
    · exact (h.clear present fun id same => .inr same).trans (.same rfl rfl rfl rfl)
    · have stored : (w.modify run.jobId (fun job => { job with result := some result })
          fun _ => rfl).Apart := h.modify _ _ fun _ _ held => held
      have first : Calm w (w.modify run.jobId (fun job => { job with result := some result })
          fun _ => rfl) := .same rfl rfl rfl rfl
      exact first.trans (scheduleResultRetry_calm stored run.jobId run.token)

theorem threw_calm (h : w.Apart) (run : Execution) (error : String) :
    Calm w (w.threw run error).1 := by
  unfold threw
  split
  · exact .refl
  next current present =>
    split
    · exact .refl
    · exact (h.clear present fun id same => .inr same).trans (.same rfl rfl rfl rfl)

theorem onHeartbeatTimer_calm (j : JobId) (token : Token) : Calm w (w.onHeartbeatTimer j token).1 := by
  unfold onHeartbeatTimer
  split
  · exact .refl
  · split <;> exact .refl

theorem onRetryTimer_calm (h : w.Apart) (j : JobId) (token : Token) :
    Calm w (w.onRetryTimer j token).1 := by
  unfold onRetryTimer
  split
  · exact .refl
  split
  · exact .refl
  split
  · exact .refl
  · have counted : (w.modify j (fun job => { job with retryCount := job.retryCount + 1 })
        fun _ => rfl).Apart := h.modify _ _ fun _ _ held => held
    have first : Calm w (w.modify j (fun job => { job with retryCount := job.retryCount + 1 })
        fun _ => rfl) := .same rfl rfl rfl rfl
    exact first.trans (scheduleResultRetry_calm counted j token)

/-- What is no event of the connection leaves it alone. -/
theorem handle_calm (named : w.TimersNamed) (apart : w.Apart) {e : WorkerEvent}
    {sends : List WorkerToCoordMsg} (h : w.handle e = some (w', sends))
    (other : e.connection = false) : Calm w w' := by
  cases e with
  | start | stop | closed | reconnect => cases other
  | opened ws =>
    cases h
    split
    · exact .same rfl rfl rfl rfl
    · exact .refl
  | message msg =>
    have calm := route_calm apart msg
    rw [Option.some.inj h] at calm
    exact calm
  | completed i result =>
    obtain ⟨run, _, same⟩ := Option.map_eq_some_iff.mp h
    have first : Calm w { w with executions := w.executions.eraseIdx i } := .same rfl rfl rfl rfl
    have rest := completed_calm (w := { w with executions := w.executions.eraseIdx i }) apart run result
    rw [same] at rest
    exact first.trans rest
  | threw i error =>
    obtain ⟨run, _, same⟩ := Option.map_eq_some_iff.mp h
    have first : Calm w { w with executions := w.executions.eraseIdx i } := .same rfl rfl rfl rfl
    have rest := threw_calm (w := { w with executions := w.executions.eraseIdx i }) apart run error
    rw [same] at rest
    exact first.trans rest
  | fire timer =>
    simp only [handle] at h
    split at h
    next id j token found =>
      have rest := onHeartbeatTimer_calm (w := w) j token
      rw [Option.some.inj h] at rest
      exact rest
    next id j token found =>
      have fired : ⟨id, .resultRetry j token⟩ ∈ w.timers := List.mem_of_find?_eq_some found
      have same : id = timer := by simpa using List.find?_some found
      have first : Calm w (w.clearTimer (some timer)) := by
        refine .clearTimer fun t ht equal => ?_
        obtain ⟨armed, reconnect⟩ := List.mem_filter.mp ht
        have one := named.eq_of_id armed fired ((Option.some.inj equal).trans same.symm)
        rw [one] at reconnect
        simp at reconnect
      have left : (w.clearTimer (some timer)).Apart := by
        intro t ht
        rw [first.armed] at ht
        exact apart t ht
      have rest := onRetryTimer_calm left j token
      rw [Option.some.inj h] at rest
      exact first.trans rest
    next => cases h
    next => cases h

end WorkerService

end Dispatcher
