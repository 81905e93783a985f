import Mathlib.Data.List.Nodup
import Mathlib.Logic.Function.Basic
import Dispatcher.Lib.Runs
import Dispatcher.Model.Worker

namespace Dispatcher
open Tables Function

/-- The entries, the timers and the executions of a worker, without its connection. -/
structure WorkerView where
  entries : JobId → Option InFlightJob
  /-- All but a reconnect timer. -/
  timers : List Timer
  executions : List Execution
  next : TimerId

namespace WorkerView

def clear (v : WorkerView) (timer : Option TimerId) : WorkerView :=
  { v with timers := v.timers.filter fun t => some t.id ≠ timer }

def remove (v : WorkerView) (j : JobId) : WorkerView :=
  { v with entries := update v.entries j none }

def without (v : WorkerView) (i : Nat) : WorkerView :=
  { v with executions := v.executions.eraseIdx i }

def accept (v : WorkerView) (msg : JobDispatch) : WorkerView where
  entries := update v.entries msg.jobId
    (some { jobId := msg.jobId, token := msg.token, heartbeatTimer := some v.next })
  timers := v.timers ++ [⟨v.next, .heartbeat msg.jobId msg.token⟩]
  executions := v.executions ++ [⟨msg.jobId, msg.token, msg.payload⟩]
  next := v.next + 1

def arm (v : WorkerView) (j : JobId) (job : InFlightJob) : WorkerView :=
  { v with
    entries := update v.entries j (some { job with retryTimer := some v.next })
    timers := v.timers ++ [⟨v.next, .resultRetry j job.token⟩]
    next := v.next + 1 }

/-- A result of `job` has been sent: it is given up, or a retry is armed. -/
def schedule (v : WorkerView) (j : JobId) (job : InFlightJob) : WorkerView :=
  if MAX_RESULT_RETRIES ≤ job.retryCount then (v.clear job.heartbeatTimer).remove j
  else v.arm j job

variable {v : WorkerView} {j k : JobId} {job : InFlightJob}

@[simp] theorem clear_entries (timer : Option TimerId) : (v.clear timer).entries = v.entries := rfl

@[simp] theorem without_entries (i : Nat) : (v.without i).entries = v.entries := rfl

@[simp] theorem remove_self : (v.remove j).entries j = none := update_self ..

theorem remove_of_ne (h : k ≠ j) : (v.remove j).entries k = v.entries k := update_of_ne h ..

@[simp] theorem arm_self :
    (v.arm j job).entries j = some { job with retryTimer := some v.next } := update_self ..

theorem arm_of_ne (h : k ≠ j) : (v.arm j job).entries k = v.entries k := update_of_ne h ..

/-- With a retry left, a timer is armed for it. -/
theorem schedule_room (room : job.retryCount < MAX_RESULT_RETRIES) :
    (v.schedule j job).entries j = some { job with retryTimer := some v.next } := by
  rw [schedule, if_neg (Nat.not_le.mpr room), arm_self]

theorem schedule_full (limit : MAX_RESULT_RETRIES ≤ job.retryCount) :
    (v.schedule j job).entries j = none := by
  rw [schedule, if_pos limit, remove_self]

theorem schedule_of_ne (h : k ≠ j) : (v.schedule j job).entries k = v.entries k := by
  unfold schedule
  split
  · exact remove_of_ne h
  · exact arm_of_ne h

theorem entries_remove {job' : InFlightJob} (present : (v.remove j).entries k = some job') :
    k ≠ j ∧ v.entries k = some job' := by
  by_cases same : k = j
  · subst same
    rw [remove_self] at present
    cases present
  · exact ⟨same, (remove_of_ne same).symm.trans present⟩

theorem entries_schedule {job' : InFlightJob} (present : (v.schedule j job).entries k = some job') :
    k = j ∧ job'.token = job.token ∨ k ≠ j ∧ v.entries k = some job' := by
  by_cases same : k = j
  · subst same
    unfold schedule at present
    split at present
    · exact absurd rfl (entries_remove present).1
    · cases Option.some.inj (arm_self.symm.trans present)
      exact .inl ⟨rfl, rfl⟩
  · exact .inr ⟨same, (schedule_of_ne same).symm.trans present⟩

@[simp] theorem accept_self {msg : JobDispatch} : (v.accept msg).entries msg.jobId =
    some { jobId := msg.jobId, token := msg.token, heartbeatTimer := some v.next } := update_self ..

theorem accept_of_ne {msg : JobDispatch} (h : k ≠ msg.jobId) :
    (v.accept msg).entries k = v.entries k := update_of_ne h ..

end WorkerView

def WorkerEvent.dispatched : WorkerEvent → Option JobDispatch
  | .message (.jobDispatch msg) => some msg
  | _ => none

/-- A dispatch, the end of a run, or a timer of a job. -/
def WorkerEvent.busy : WorkerEvent → Bool
  | .message (.jobDispatch _) | .completed .. | .threw .. | .fire _ => true
  | _ => false

/-- Everything a step before `stop` can do, with what it sends. -/
inductive WorkerStep (v : WorkerView) : WorkerEvent → WorkerView → List WorkerToCoordMsg → Prop where
  | aside {e : WorkerEvent} {next : TimerId} {sends : List WorkerToCoordMsg}
      (later : v.next ≤ next) (other : e.busy = false)
      (silent : ∀ m ∈ sends, m.claim = none) : WorkerStep v e { v with next } sends
  | ignored {msg : JobDispatch} {job : InFlightJob} (present : v.entries msg.jobId = some job) :
      WorkerStep v (.message (.jobDispatch msg)) v []
  | rejected {msg : JobDispatch} (absent : v.entries msg.jobId = none) :
      WorkerStep v (.message (.jobDispatch msg)) v
        [.jobFailed ⟨msg.jobId, msg.token, "worker at capacity", true⟩]
  | accepted {msg : JobDispatch} (absent : v.entries msg.jobId = none) :
      WorkerStep v (.message (.jobDispatch msg)) (v.accept msg) []
  | acked {j : JobId} {job : InFlightJob} (present : v.entries j = some job) :
      WorkerStep v (.message (.jobAck j))
        (((v.clear job.retryTimer).clear job.heartbeatTimer).remove j) []
  /-- A run returns, and its entry is gone. -/
  | returned {i : Nat} {run : Execution} {result : Json} (hi : v.executions[i]? = some run)
      (absent : v.entries run.jobId = none) :
      WorkerStep v (.completed i result) (v.without i) []
  /-- A run returns, and the entry of its job belongs to another. -/
  | superseded {i : Nat} {run : Execution} {result : Json} {current : InFlightJob}
      (hi : v.executions[i]? = some run) (present : v.entries run.jobId = some current)
      (other : current.token ≠ run.token) :
      WorkerStep v (.completed i result)
        (((v.without i).clear current.heartbeatTimer).remove run.jobId) []
  | completed {i : Nat} {run : Execution} {result : Json} {job : InFlightJob}
      (hi : v.executions[i]? = some run) (present : v.entries run.jobId = some job)
      (own : job.token = run.token) :
      WorkerStep v (.completed i result)
        ((v.without i).schedule run.jobId { job with result := some result })
        [.jobResult ⟨run.jobId, run.token, result⟩]
  | threw {i : Nat} {run : Execution} {error : String} (hi : v.executions[i]? = some run)
      (other : ∀ job, v.entries run.jobId = some job → job.token ≠ run.token) :
      WorkerStep v (.threw i error) (v.without i) []
  | failed {i : Nat} {run : Execution} {error : String} {job : InFlightJob}
      (hi : v.executions[i]? = some run) (present : v.entries run.jobId = some job)
      (own : job.token = run.token) :
      WorkerStep v (.threw i error)
        (((v.without i).clear job.heartbeatTimer).remove run.jobId)
        [.jobFailed ⟨run.jobId, run.token, error, false⟩]
  | beat {timer : TimerId} {j : JobId} {job : InFlightJob}
      (armed : ⟨timer, .heartbeat j job.token⟩ ∈ v.timers) (present : v.entries j = some job) :
      WorkerStep v (.fire timer) v [.jobHeartbeat ⟨j, job.token⟩]
  | skipped {timer : TimerId} {j : JobId} {token : Token}
      (armed : ⟨timer, .heartbeat j token⟩ ∈ v.timers)
      (other : ∀ job, v.entries j = some job → job.token ≠ token) : WorkerStep v (.fire timer) v []
  | retried {timer : TimerId} {j : JobId} {job : InFlightJob} {result : Json}
      (armed : ⟨timer, .resultRetry j job.token⟩ ∈ v.timers) (present : v.entries j = some job)
      (stored : job.result = some result) :
      WorkerStep v (.fire timer)
        ((v.clear (some timer)).schedule j { job with retryCount := job.retryCount + 1 })
        [.jobResult ⟨j, job.token, result⟩]
  | spent {timer : TimerId} {j : JobId} {token : Token}
      (armed : ⟨timer, .resultRetry j token⟩ ∈ v.timers)
      (other : ∀ job, v.entries j = some job → job.token = token → job.result = none) :
      WorkerStep v (.fire timer) (v.clear (some timer)) []

namespace WorkerService

def step : Runs.Step WorkerService WorkerEvent := fun w e => (w.handle e).map Prod.fst

def sends (w : WorkerService) (e : WorkerEvent) : List WorkerToCoordMsg :=
  ((w.handle e).map Prod.snd).getD []

def jobView (w : WorkerService) : WorkerView where
  entries := w.inFlight.lookup
  timers := w.timers.filter fun t => t.callback ≠ .reconnect
  executions := w.executions
  next := w.nextTimer

structure TimersNamed (w : WorkerService) : Prop where
  unique : (w.timers.map Timer.id).Nodup
  used : ∀ t ∈ w.timers, t.id < w.nextTimer

theorem entry_key {w : WorkerService} {j : JobId} {job : InFlightJob}
    (h : w.inFlight.lookup j = some job) : job.jobId = j := Table.lookup_key h

theorem view_clearTimer (w : WorkerService) (timer : Option TimerId) :
    (w.clearTimer timer).jobView = w.jobView.clear timer := by
  simp only [jobView, clearTimer, WorkerView.clear, List.filter_filter, Bool.and_comm]

theorem view_setTimer (w : WorkerService) {callback : Callback} (hc : callback ≠ .reconnect) :
    (w.setTimer callback).2.jobView =
      { w.jobView with
        timers := w.jobView.timers ++ [⟨w.jobView.next, callback⟩]
        next := w.jobView.next + 1 } := by
  simp [jobView, setTimer, List.filter_append, hc]

theorem view_remove (w : WorkerService) (j : JobId) : (w.remove j).jobView = w.jobView.remove j := by
  have entries : (w.remove j).inFlight.lookup = update w.inFlight.lookup j none := by
    funext k
    rw [remove, Table.lookup_delete]
    by_cases same : k = j
    · subst same
      rw [update_self]
      cases h : w.inFlight.lookup k with
      | none => rfl
      | some job => simp [Option.filter_some, entry_key h]
    · rw [update_of_ne same]
      cases h : w.inFlight.lookup k with
      | none => rfl
      | some job => simp [Option.filter_some, entry_key h, same]
  simp only [jobView, WorkerView.remove, entries]
  rfl

theorem view_modify (w : WorkerService) {j : JobId} {job : InFlightJob} {f : InFlightJob → InFlightJob}
    (hf : ∀ job, (f job).jobId = job.jobId) (h : w.inFlight.lookup j = some job) :
    (w.modify j f hf).jobView = { w.jobView with entries := update w.jobView.entries j (some (f job)) } := by
  have entries : (w.modify j f hf).inFlight.lookup = update w.inFlight.lookup j (some (f job)) := by
    funext k
    rw [modify, Table.lookup_update]
    by_cases same : k = j
    · subst same
      simp [h, entry_key h]
    · rw [update_of_ne same]
      cases h : w.inFlight.lookup k with
      | none => rfl
      | some job => simp [entry_key h, same]
  simp only [jobView, entries]
  rfl

theorem view_schedule (w : WorkerService) {j : JobId} {token : Token} {job : InFlightJob}
    {f : InFlightJob → InFlightJob} (hf : ∀ job, (f job).jobId = job.jobId)
    (h : w.inFlight.lookup j = some job) (own : (f job).token = token) :
    ((w.modify j f hf).scheduleResultRetry j token).jobView = w.jobView.schedule j (f job) := by
  have view := view_modify w hf h
  have now : (w.modify j f hf).inFlight.lookup j = some (f job) := by
    have entries := congrFun (congrArg WorkerView.entries view) j
    simpa [WorkerService.jobView] using entries
  subst own
  simp only [scheduleResultRetry, now, WorkerView.schedule]
  split
  · rw [view_remove, view_clearTimer, view]
    simp only [WorkerView.remove, WorkerView.clear, update_idem]
  · have armed : ((w.modify j f hf).setTimer (.resultRetry j (f job).token)).2.inFlight.lookup j =
      some (f job) := now
    rw [view_modify _ _ armed, view_setTimer _ (by simp), view]
    simp only [update_idem]
    rfl

theorem handleAck_step (w : WorkerService) (j : JobId) :
    WorkerStep w.jobView (.message (.jobAck j)) (w.handleAck j).jobView [] := by
  unfold handleAck
  cases h : w.inFlight.lookup j with
  | none => exact .aside (Nat.le_refl _) rfl fun m hm => by cases hm
  | some job =>
    simp only [view_remove, view_clearTimer]
    exact .acked h

/-- An accepted dispatch: the entry, its heartbeat timer and the execution. -/
theorem view_accept (w : WorkerService) {msg : JobDispatch}
    (h : w.inFlight.lookup msg.jobId = none) (capacity : ¬ w.concurrencyLimit ≤ w.inFlight.rows.length) :
    (w.handleDispatch msg).1.jobView = w.jobView.accept msg ∧ (w.handleDispatch msg).2 = [] := by
  let inserted : WorkerService :=
    { w with inFlight := w.inFlight.insert { jobId := msg.jobId, token := msg.token } }
  have entries : inserted.jobView.entries =
      update w.jobView.entries msg.jobId (some { jobId := msg.jobId, token := msg.token }) := by
    funext k
    change (w.inFlight.insert _).lookup k = _
    rw [Table.lookup_insert]
    by_cases same : msg.jobId = k
    · subst same
      simp [h]
    · simp [same, update_of_ne (Ne.symm same), jobView]
  have present : (inserted.setTimer (.heartbeat msg.jobId msg.token)).2.inFlight.lookup msg.jobId =
      some { jobId := msg.jobId, token := msg.token } := by
    have now := congrFun entries msg.jobId
    rw [update_self] at now
    exact now
  have armed := view_modify (f := fun job => { job with heartbeatTimer := some w.nextTimer }) _
    (fun _ => rfl) present
  rw [view_setTimer _ (by simp)] at armed
  simp only [entries, update_idem] at armed
  simp only [handleDispatch, h, Option.isSome_none, Bool.false_eq_true, capacity, ↓reduceIte,
    and_true]
  exact congrArg (fun v : WorkerView =>
    { v with executions := v.executions ++ [Execution.mk msg.jobId msg.token msg.payload] }) armed

theorem handleDispatch_step (w : WorkerService) (msg : JobDispatch) :
    WorkerStep w.jobView (.message (.jobDispatch msg)) (w.handleDispatch msg).1.jobView
      (w.handleDispatch msg).2 := by
  cases h : w.inFlight.lookup msg.jobId with
  | some job =>
    simp only [handleDispatch, h, Option.isSome_some, ↓reduceIte]
    exact .ignored h
  | none =>
    by_cases capacity : w.concurrencyLimit ≤ w.inFlight.rows.length
    · simp only [handleDispatch, h, Option.isSome_none, Bool.false_eq_true, capacity, ↓reduceIte]
      exact .rejected h
    · obtain ⟨view, silent⟩ := view_accept w h capacity
      rw [view, silent]
      exact .accepted h

theorem completed_step (w : WorkerService) {i : Nat} {run : Execution} (result : Json)
    (hi : w.executions[i]? = some run) :
    WorkerStep w.jobView (.completed i result)
      ({ w with executions := w.executions.eraseIdx i }.completed run result).1.jobView
      ({ w with executions := w.executions.eraseIdx i }.completed run result).2 := by
  unfold completed
  cases h : w.inFlight.lookup run.jobId with
  | none => exact .returned hi h
  | some current =>
    by_cases own : current.token = run.token
    · simp only [own, ne_eq, not_true_eq_false, ↓reduceIte]
      have scheduled := view_schedule (f := fun job => { job with result := some result })
        { w with executions := w.executions.eraseIdx i } (fun _ => rfl) h own
      rw [scheduled]
      exact .completed hi h own
    · simp only [own, ne_eq, not_false_eq_true, ↓reduceIte]
      rw [view_remove, view_clearTimer]
      exact .superseded hi h own

theorem threw_step (w : WorkerService) {i : Nat} {run : Execution} (error : String)
    (hi : w.executions[i]? = some run) :
    WorkerStep w.jobView (.threw i error)
      ({ w with executions := w.executions.eraseIdx i }.threw run error).1.jobView
      ({ w with executions := w.executions.eraseIdx i }.threw run error).2 := by
  unfold threw
  cases h : w.inFlight.lookup run.jobId with
  | none =>
    refine .threw hi fun job present => ?_
    cases h.symm.trans present
  | some current =>
    by_cases own : current.token = run.token
    · simp only [own, ne_eq, not_true_eq_false, ↓reduceIte]
      rw [view_remove, view_clearTimer]
      exact .failed hi h own
    · simp only [own, ne_eq, not_false_eq_true, ↓reduceIte]
      refine .threw hi fun job present => ?_
      cases Option.some.inj (h.symm.trans present)
      exact own

theorem onHeartbeatTimer_step (w : WorkerService) {timer : TimerId} {j : JobId} {token : Token}
    (armed : ⟨timer, .heartbeat j token⟩ ∈ w.jobView.timers) :
    WorkerStep w.jobView (.fire timer) (w.onHeartbeatTimer j token).1.jobView
      (w.onHeartbeatTimer j token).2 := by
  unfold onHeartbeatTimer
  cases h : w.inFlight.lookup j with
  | none =>
    refine .skipped armed fun job present => ?_
    cases h.symm.trans present
  | some cur =>
    by_cases own : cur.token = token
    · subst own
      simp only [ne_eq, not_true_eq_false, ↓reduceIte]
      exact .beat armed h
    · simp only [own, ne_eq, not_false_eq_true, ↓reduceIte]
      refine .skipped armed fun job present => ?_
      cases Option.some.inj (h.symm.trans present)
      exact own

theorem onRetryTimer_step (w : WorkerService) {timer : TimerId} {j : JobId} {token : Token}
    (armed : ⟨timer, .resultRetry j token⟩ ∈ w.jobView.timers) :
    WorkerStep w.jobView (.fire timer) ((w.clearTimer (some timer)).onRetryTimer j token).1.jobView
      ((w.clearTimer (some timer)).onRetryTimer j token).2 := by
  have lookup : (w.clearTimer (some timer)).inFlight.lookup j = w.inFlight.lookup j := rfl
  unfold onRetryTimer
  rw [lookup]
  cases h : w.inFlight.lookup j with
  | none =>
    simp only [view_clearTimer]
    refine .spent armed fun job present => ?_
    cases h.symm.trans present
  | some current =>
    dsimp only
    cases stored : current.result with
    | none =>
      simp only [view_clearTimer]
      refine .spent armed fun job present _ => ?_
      cases Option.some.inj (h.symm.trans present)
      exact stored
    | some result =>
      by_cases own : current.token = token
      · subst own
        simp only [ne_eq, not_true_eq_false, ↓reduceIte]
        have scheduled := view_schedule
          (f := fun job => { job with retryCount := job.retryCount + 1 })
          (w.clearTimer (some timer)) (fun _ => rfl) (lookup.trans h) rfl
        rw [scheduled, view_clearTimer]
        exact .retried armed h stored
      · simp only [own, ne_eq, not_false_eq_true, ↓reduceIte, view_clearTimer]
        refine .spent armed fun job present same => ?_
        cases Option.some.inj (h.symm.trans present)
        exact absurd same own

/-- A new timer gets a new handle. -/
theorem nodup_snoc {ts : List Timer} {next : TimerId} {callback : Callback}
    (unique : (ts.map Timer.id).Nodup) (used : ∀ t ∈ ts, t.id < next) :
    ((ts ++ [Timer.mk next callback]).map Timer.id).Nodup := by
  rw [List.map_append]
  refine List.nodup_append.mpr ⟨unique, List.nodup_singleton _, ?_⟩
  intro id hid last hlast same
  obtain ⟨t, ht, rfl⟩ := List.mem_map.mp hid
  rw [List.mem_singleton.mp hlast] at same
  exact absurd same (Nat.ne_of_lt (used t ht))

theorem TimersNamed.clearTimer {w : WorkerService} (h : w.TimersNamed) (timer : Option TimerId) :
    (w.clearTimer timer).TimersNamed where
  unique := h.unique.sublist (List.filter_sublist.map Timer.id)
  used t ht := h.used t (List.mem_of_mem_filter ht)

theorem TimersNamed.setTimer {w : WorkerService} (h : w.TimersNamed) (callback : Callback) :
    (w.setTimer callback).2.TimersNamed where
  unique := nodup_snoc h.unique h.used
  used := by
    intro t ht
    rcases List.mem_append.mp ht with ht | ht
    · exact Nat.lt_succ_of_lt (h.used t ht)
    · cases List.mem_singleton.mp ht
      exact Nat.lt_succ_self _

/-- Nothing but the timers matters. -/
theorem TimersNamed.same {w w' : WorkerService} (h : w.TimersNamed) (timers : w'.timers = w.timers)
    (next : w'.nextTimer = w.nextTimer) : w'.TimersNamed where
  unique := timers ▸ h.unique
  used := by
    rw [timers, next]
    exact h.used

theorem TimersNamed.modify {w : WorkerService} (h : w.TimersNamed) (j : JobId)
    (f : InFlightJob → InFlightJob) (hf : ∀ job, (f job).jobId = job.jobId) :
    (w.modify j f hf).TimersNamed := h.same rfl rfl

theorem TimersNamed.scheduleReconnect {w : WorkerService} (h : w.TimersNamed) :
    w.scheduleReconnect.TimersNamed := by
  unfold WorkerService.scheduleReconnect
  split
  · exact (h.setTimer _).same rfl rfl
  · exact h

theorem TimersNamed.scheduleResultRetry {w : WorkerService} (h : w.TimersNamed) (j : JobId)
    (token : Token) : (w.scheduleResultRetry j token).TimersNamed := by
  unfold WorkerService.scheduleResultRetry
  split
  · exact h
  split
  · exact (h.clearTimer _).same rfl rfl
  · exact (h.setTimer _).same rfl rfl

theorem TimersNamed.route {w : WorkerService} (h : w.TimersNamed) (msg : CoordToWorkerMsg) :
    (w.route msg).1.TimersNamed := by
  cases msg with
  | ping => exact h
  | setConcurrency limit => exact h.same rfl rfl
  | jobAck j =>
    simp only [WorkerService.route, handleAck]
    split
    · exact h
    · exact ((h.clearTimer _).clearTimer _).same rfl rfl
  | jobDispatch msg =>
    simp only [WorkerService.route, handleDispatch]
    split
    · exact h
    split
    · exact h
    · have kept : ({ w with inFlight := _ } : WorkerService).timers = w.timers := rfl
      exact ((h.same kept rfl).setTimer _).same rfl rfl

theorem TimersNamed.completed {w : WorkerService} (h : w.TimersNamed) (run : Execution)
    (result : Json) : (w.completed run result).1.TimersNamed := by
  unfold WorkerService.completed
  split
  · exact h
  split
  · exact (h.clearTimer _).same rfl rfl
  · exact TimersNamed.scheduleResultRetry (h.modify _ _ _) _ _

theorem TimersNamed.threw {w : WorkerService} (h : w.TimersNamed) (run : Execution)
    (error : String) : (w.threw run error).1.TimersNamed := by
  unfold WorkerService.threw
  split
  · exact h
  split
  · exact h
  · exact (h.clearTimer _).same rfl rfl

theorem TimersNamed.onHeartbeatTimer {w : WorkerService} (h : w.TimersNamed) (j : JobId)
    (token : Token) : (w.onHeartbeatTimer j token).1.TimersNamed := by
  unfold WorkerService.onHeartbeatTimer
  split
  · exact h
  · split <;> exact h

theorem TimersNamed.onRetryTimer {w : WorkerService} (h : w.TimersNamed) (j : JobId)
    (token : Token) : (w.onRetryTimer j token).1.TimersNamed := by
  unfold WorkerService.onRetryTimer
  split
  · exact h
  split
  · exact h
  split
  · exact h
  · exact TimersNamed.scheduleResultRetry (h.modify _ _ _) _ _

/-- A new timer gets a handle of its own. -/
theorem step_named {w w' : WorkerService} {e : WorkerEvent} (h : w.TimersNamed)
    (hs : step w e = some w') (alive : e ≠ .stop) : w'.TimersNamed := by
  obtain ⟨p, handled, rfl⟩ := Option.map_eq_some_iff.mp hs
  cases e with
  | stop => exact absurd rfl alive
  | start ws | opened ws =>
    cases handled
    refine h.same ?_ ?_
    all_goals (try split) <;> rfl
  | closed ws =>
    cases handled
    refine TimersNamed.scheduleReconnect ?_
    split
    · exact h.same rfl rfl
    · exact h
  | message msg =>
    cases handled
    exact h.route msg
  | completed i result =>
    obtain ⟨run, _, rfl⟩ := Option.map_eq_some_iff.mp handled
    refine TimersNamed.completed ?_ run result
    exact h.same rfl rfl
  | threw i error =>
    obtain ⟨run, _, rfl⟩ := Option.map_eq_some_iff.mp handled
    refine TimersNamed.threw ?_ run error
    exact h.same rfl rfl
  | fire timer =>
    simp only [handle] at handled
    split at handled
    next =>
      cases handled
      exact h.onHeartbeatTimer _ _
    next =>
      cases handled
      exact (h.clearTimer _).onRetryTimer _ _
    next => cases handled
    next => cases handled
  | reconnect timer ws =>
    simp only [handle] at handled
    split at handled
    · cases handled
      exact (h.clearTimer _).same rfl rfl
    · cases handled

/-- A handle stands for its timer. -/
theorem TimersNamed.eq_of_id {w : WorkerService} (h : w.TimersNamed) {t t' : Timer}
    (ht : t ∈ w.timers) (ht' : t' ∈ w.timers) (same : t.id = t'.id) : t = t' :=
  List.inj_on_of_nodup_map h.unique ht ht' same

/-- An event that touches neither entries nor their timers. -/
theorem aside_step {w w' : WorkerService} {e : WorkerEvent} {sends : List WorkerToCoordMsg}
    (entries : w'.inFlight = w.inFlight) (executions : w'.executions = w.executions)
    (timers : w'.jobView.timers = w.jobView.timers) (later : w.nextTimer ≤ w'.nextTimer)
    (other : e.busy = false) (silent : ∀ m ∈ sends, m.claim = none) :
    WorkerStep w.jobView e w'.jobView sends := by
  have same : w'.jobView = { w.jobView with next := w'.nextTimer } := by
    have parts : w'.jobView = ⟨w'.inFlight.lookup, w'.jobView.timers, w'.executions, w'.nextTimer⟩ := rfl
    rw [parts, entries, timers, executions]
    rfl
  rw [same]
  exact .aside later other silent

/-- The faithful worker does what `WorkerStep` allows. -/
theorem step_view {w w' : WorkerService} {e : WorkerEvent} (h : w.TimersNamed)
    (hs : step w e = some w') (alive : e ≠ .stop) : WorkerStep w.jobView e w'.jobView (w.sends e) := by
  obtain ⟨p, handled, rfl⟩ := Option.map_eq_some_iff.mp hs
  have sent : w.sends e = p.2 := by simp [WorkerService.sends, handled]
  rw [sent]
  cases e with
  | stop => exact absurd rfl alive
  | start ws =>
    cases handled
    exact aside_step rfl rfl rfl (Nat.le_refl _) rfl fun m hm => by cases hm
  | opened ws =>
    cases handled
    refine aside_step ?_ ?_ ?_ ?_ rfl ?_
    · split <;> rfl
    · split <;> rfl
    · split <;> rfl
    · split <;> exact Nat.le_refl _
    · intro m hm
      cases List.mem_singleton.mp hm
      rfl
  | closed ws =>
    cases handled
    refine aside_step ?_ ?_ ?_ ?_ rfl fun m hm => by cases hm
    all_goals
      simp only [scheduleReconnect]
      split <;> split <;> simp [setTimer, WorkerService.jobView]
  | message msg =>
    cases handled
    cases msg with
    | jobDispatch msg => exact handleDispatch_step w msg
    | jobAck j => exact handleAck_step w j
    | ping =>
      refine aside_step rfl rfl rfl (Nat.le_refl _) rfl ?_
      intro m hm
      cases List.mem_singleton.mp hm
      rfl
    | setConcurrency limit =>
      exact aside_step rfl rfl rfl (Nat.le_refl _) rfl fun m hm => by cases hm
  | completed i result =>
    obtain ⟨run, hi, rfl⟩ := Option.map_eq_some_iff.mp handled
    exact completed_step w result hi
  | threw i error =>
    obtain ⟨run, hi, rfl⟩ := Option.map_eq_some_iff.mp handled
    exact threw_step w error hi
  | fire timer =>
    simp only [handle] at handled
    split at handled
    next id j token found =>
      cases handled
      have named : id = timer := by simpa using List.find?_some found
      subst named
      refine onHeartbeatTimer_step w (List.mem_filter.mpr ⟨List.mem_of_find?_eq_some found, ?_⟩)
      simp
    next id j token found =>
      cases handled
      have named : id = timer := by simpa using List.find?_some found
      subst named
      refine onRetryTimer_step w (List.mem_filter.mpr ⟨List.mem_of_find?_eq_some found, ?_⟩)
      simp
    next => cases handled
    next => cases handled
  | reconnect timer ws =>
    simp only [handle] at handled
    split at handled
    next armed =>
      cases handled
      refine aside_step rfl rfl ?_ (Nat.le_refl _) rfl fun m hm => by cases hm
      -- the handle is the one of the reconnect timer, and of no other
      change ((w.clearTimer (some timer)).timers.filter _) = _
      simp only [clearTimer, WorkerService.jobView, List.filter_filter]
      apply List.filter_congr
      intro t ht
      by_cases named : t.id = timer
      · have same := h.eq_of_id ht armed named
        simp [same]
      · simp [named]
    next => cases handled

end WorkerService

end Dispatcher
