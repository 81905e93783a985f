import Dispatcher.Proofs.TokenMessages

namespace Dispatcher
open Runs

/-- The end, or a timer, of the run started for `(j, t)`. -/
def WorkerEvent.OfRun (v : WorkerView) (j : JobId) (t : Token) : WorkerEvent → Prop
  | .completed i _ | .threw i _ =>
    ∃ run, v.executions[i]? = some run ∧ run.jobId = j ∧ run.token = t
  | .fire timer => ⟨timer, .heartbeat j t⟩ ∈ v.timers ∨ ⟨timer, .resultRetry j t⟩ ∈ v.timers
  | _ => False

section

variable {v v' : WorkerView} {a : WorkerEvent} {sends : List WorkerToCoordMsg} {j : JobId}
  {t : Token} {job : InFlightJob}

theorem WorkerEvent.OfRun.fire {timer : TimerId} {callback : Callback} (h : v.Handles)
    (of : (WorkerEvent.fire timer).OfRun v j t) (armed : ⟨timer, callback⟩ ∈ v.timers) :
    callback = .heartbeat j t ∨ callback = .resultRetry j t := by
  rcases of with own | own
  · exact .inl (congrArg Timer.callback (h.eq_of_id armed own rfl))
  · exact .inr (congrArg Timer.callback (h.eq_of_id armed own rfl))

/-- A run whose job has an entry with another token ends, or one of its timers fires. -/
theorem WorkerStep.stale (h : v.Handles) (step : WorkerStep v a v' sends) (of : a.OfRun v j t)
    (present : v.entries j = some job) (other : job.token ≠ t)
    (current : ∀ i result run, a = .completed i result → v.executions[i]? = some run →
      ∀ job, v.entries run.jobId = some job → job.token = run.token) :
    v'.entries j = some job ∧ ∀ timer ∈ v.timers, timer.callback = .heartbeat j job.token ∨
      timer.callback = .resultRetry j job.token → timer ∈ v'.timers := by
  cases step with
  | aside _ idle =>
    cases a with
    | completed | threw | fire => cases idle
    | _ => cases of
  | ignored | rejected | accepted | acked => cases of
  | returned hi absent =>
    obtain ⟨run, hi', rfl, rfl⟩ := of
    cases Option.some.inj (hi.symm.trans hi')
    cases absent.symm.trans present
  | superseded hi present' foreign =>
    exact absurd (current _ _ _ rfl hi _ present') foreign
  | completed hi present' own | failed hi present' own =>
    obtain ⟨run, hi', rfl, rfl⟩ := of
    cases Option.some.inj (hi.symm.trans hi')
    cases Option.some.inj (present.symm.trans present')
    exact absurd own other
  | threw | skipped => exact ⟨present, fun _ ht _ => ht⟩
  | beat armed present' =>
    rcases of.fire h armed with same | same <;> cases same
    cases Option.some.inj (present.symm.trans present')
    exact absurd rfl other
  | retried armed present' =>
    rcases of.fire h armed with same | same <;> cases same
    cases Option.some.inj (present.symm.trans present')
    exact absurd rfl other
  | @spent timer k token armed =>
    rcases of.fire h armed with same | same <;> cases same
    refine ⟨present, ?_⟩
    intro timer' ht callback
    refine WorkerView.mem_clear.mpr ⟨ht, ?_⟩
    intro same
    have equal := h.eq_of_id ht armed (Option.some.inj same)
    subst equal
    rcases callback with callback | callback <;> cases callback
    exact other rfl

/-- A run ends while its entry is there. -/
theorem WorkerStep.outcome {i : Nat} {run : Execution} (step : WorkerStep v a v' sends)
    (hi : v.executions[i]? = some run) (present : v.entries run.jobId = some job)
    (own : job.token = run.token) :
    (∀ result, a = .completed i result → .jobResult ⟨run.jobId, run.token, result⟩ ∈ sends) ∧
    ∀ error, a = .threw i error → .jobFailed ⟨run.jobId, run.token, error, false⟩ ∈ sends := by
  refine ⟨?_, ?_⟩
  · rintro result rfl
    cases step with
    | aside _ idle => cases idle
    | returned hi' absent =>
      cases Option.some.inj (hi.symm.trans hi')
      cases absent.symm.trans present
    | superseded hi' present' foreign =>
      cases Option.some.inj (hi.symm.trans hi')
      cases Option.some.inj (present.symm.trans present')
      exact absurd own foreign
    | completed hi' =>
      cases Option.some.inj (hi.symm.trans hi')
      exact List.mem_singleton_self _
  · rintro error rfl
    cases step with
    | aside _ idle => cases idle
    | threw hi' foreign =>
      cases Option.some.inj (hi.symm.trans hi')
      exact absurd own (foreign job present)
    | failed hi' =>
      cases Option.some.inj (hi.symm.trans hi')
      exact List.mem_singleton_self _

/-- A stale run returns, and the entry goes. -/
theorem WorkerStep.supersedes {i : Nat} {result : Json} {run : Execution}
    (step : WorkerStep v (.completed i result) v' sends) (hi : v.executions[i]? = some run)
    (present : v.entries run.jobId = some job) (other : job.token ≠ run.token) :
    v'.entries run.jobId = none := by
  cases step with
  | aside _ idle => cases idle
  | returned hi' absent =>
    cases Option.some.inj (hi.symm.trans hi')
    cases absent.symm.trans present
  | superseded hi' =>
    cases Option.some.inj (hi.symm.trans hi')
    exact WorkerView.remove_self
  | completed hi' present' own =>
    cases Option.some.inj (hi.symm.trans hi')
    cases Option.some.inj (present.symm.trans present')
    exact absurd own other

end

namespace WorkerService

structure Harmless (e : Event WorkerService WorkerEvent) : Prop where
  undisturbed : ∀ j t job, e.action.OfRun e.before.jobView j t → e.before.inFlight.lookup j = some job →
    job.token ≠ t → e.after.inFlight.lookup j = some job ∧
      ∀ timer ∈ e.before.timers, timer.callback = .heartbeat j job.token ∨
        timer.callback = .resultRetry j job.token → timer ∈ e.after.timers
  removed : ∀ j job, e.before.inFlight.lookup j = some job → ¬ e.after.Holds j job.token →
    e.action = .message (.jobAck j) ∨
    (∃ i error, e.action = .threw i error ∧ e.action.OfRun e.before.jobView j job.token) ∨
    (∃ timer, e.action = .fire timer ∧ e.action.OfRun e.before.jobView j job.token ∧
      MAX_RESULT_RETRIES ≤ job.retryCount + 1)
  returns : ∀ i result run job, e.action = .completed i result →
    e.before.executions[i]? = some run → e.before.inFlight.lookup run.jobId = some job →
    job.token = run.token → .jobResult ⟨run.jobId, run.token, result⟩ ∈ e.before.sends e.action
  throws : ∀ i error run job, e.action = .threw i error →
    e.before.executions[i]? = some run → e.before.inFlight.lookup run.jobId = some job →
    job.token = run.token →
    .jobFailed ⟨run.jobId, run.token, error, false⟩ ∈ e.before.sends e.action

/-- A run returns while the entry of its job bears another token. -/
def Superseded (e : Event WorkerService WorkerEvent) : Prop :=
  ∃ i result run job, e.action = .completed i result ∧ e.before.executions[i]? = some run ∧
    e.before.inFlight.lookup run.jobId = some job ∧ job.token ≠ run.token

section

variable {pre : List (Event WorkerService WorkerEvent)} {e : Event WorkerService WorkerEvent}

theorem jobView_timer {w : WorkerService} {timer : Timer} (h : timer ∈ w.jobView.timers) :
    timer ∈ w.timers := List.mem_of_mem_filter h

theorem undisturbed (known : Known pre e) (current : ¬ Superseded e) {j : JobId} {t : Token}
    {job : InFlightJob} (of : e.action.OfRun e.before.jobView j t)
    (present : e.before.inFlight.lookup j = some job) (other : job.token ≠ t) :
    e.after.inFlight.lookup j = some job ∧
      ∀ timer ∈ e.before.timers, timer.callback = .heartbeat j job.token ∨
        timer.callback = .resultRetry j job.token → timer ∈ e.after.timers := by
  obtain ⟨still, timers⟩ := known.view.stale known.kept.upkeep.handles of present other
    fun i result run returns hi job present => by
      by_contra foreign
      exact current ⟨i, result, run, job, returns, hi, present, foreign⟩
  refine ⟨still, fun timer armed callback => jobView_timer (timers timer ?_ callback)⟩
  refine List.mem_filter.mpr ⟨armed, ?_⟩
  rcases callback with callback | callback <;> simp [callback]

theorem removed (known : Known pre e) (current : ¬ Superseded e) {j : JobId} {job : InFlightJob}
    (present : e.before.inFlight.lookup j = some job) (gone : ¬ e.after.Holds j job.token) :
    e.action = .message (.jobAck j) ∨
    (∃ i error, e.action = .threw i error ∧ e.action.OfRun e.before.jobView j job.token) ∨
    (∃ timer, e.action = .fire timer ∧ e.action.OfRun e.before.jobView j job.token ∧
      MAX_RESULT_RETRIES ≤ job.retryCount + 1) := by
  cases known.entryStep present with
  | kept same | beat same => exact absurd ⟨_, same, rfl⟩ gone
  | stored _ now | retried _ _ now => exact absurd ⟨_, now, rfl⟩ gone
  | gaveUp _ limit _ _ fires =>
    cases h : e.action with
    | fire timer =>
      rw [h] at fires
      exact .inr (.inr ⟨timer, rfl, .inr (of_decide_eq_true fires), limit⟩)
    | _ =>
      rw [h] at fires
      cases fires
  | @failed i error run throws hi ofJob own =>
    refine .inr (.inl ⟨i, error, throws, ?_⟩)
    rw [throws]
    exact ⟨run, hi, ofJob, own⟩
  | acked acks => exact .inl acks
  | @superseded i result run returns hi ofJob other =>
    subst ofJob
    exact absurd ⟨i, result, run, job, returns, hi, present, Ne.symm other⟩ current

/-- The handlers are harmless but for one. -/
theorem harmless_iff (known : Known pre e) : Harmless e ↔ ¬ Superseded e := by
  refine ⟨?_, fun current => ?_⟩
  · rintro harmless ⟨i, result, run, job, returns, hi, present, other⟩
    have view := known.view
    have of : e.action.OfRun e.before.jobView run.jobId run.token := by
      rw [returns]
      exact ⟨run, hi, rfl, rfl⟩
    have still := (harmless.undisturbed _ _ _ of present other).1
    rw [returns] at view
    cases (view.supersedes hi present other).symm.trans still
  · constructor
    case undisturbed => exact fun j t job of present other => undisturbed known current of present other
    case removed => exact fun j job present gone => removed known current present gone
    case returns =>
      intro i result run job returns hi present own
      exact (known.view.outcome hi present own).1 result returns
    case throws =>
      intro i error run job throws hi present own
      exact (known.view.outcome hi present own).2 error throws

variable {workerId : WorkerId} {limit : Int} {w : WorkerService}
  {es : List (Event WorkerService WorkerEvent)}

/-- Stale runs disturb no newer run exactly when none returns while the entry of its
job bears another token. -/
theorem stale_harmless_iff (run : Run step (fresh workerId limit) es w)
    (alive : ∀ e ∈ es, e.action ≠ .stop) (distinct : ((leasesOf es).map Prod.snd).Nodup) :
    (∀ e ∈ es, Harmless e) ↔ ∀ e ∈ es, ¬ Superseded e := by
  refine forall₂_congr fun e he => ?_
  obtain ⟨pre, post, split⟩ := List.append_of_mem he
  exact harmless_iff (run_known run alive distinct split)

end

/-- An ack frees the slot while the run goes on; a new run of the job has been
started when it returns. -/
def staleRun : List WorkerEvent :=
  [.start 1, .opened 1, .message (.jobDispatch ⟨1, 1, .null, 1000⟩), .message (.jobAck 1),
    .message (.jobDispatch ⟨1, 2, .null, 1000⟩), .completed 0 (.obj [])]

theorem staleRun_disturbed : ∃ es w, Run step (fresh "w1" 4) es w ∧
    (∀ e ∈ es, e.action ≠ .stop) ∧ ((leasesOf es).map Prod.snd).Nodup ∧
    ¬ ∀ e ∈ es, Harmless e := by
  let es := trace step (fresh "w1" 4) staleRun
  obtain ⟨w, hw, _⟩ : ∃ w, exec step (fresh "w1" 4) staleRun = some w ∧
      (w.inFlight.lookup 1).isNone = true := exec_any (by decide)
  refine ⟨es, w, run_of_exec staleRun hw, ?_, by decide, ?_⟩
  · intro e he stops
    have listed := trace_action_mem staleRun hw e he
    simp [stops, staleRun] at listed
  · intro harmless
    obtain ⟨e, he, of, job, present, other, gone⟩ : ∃ e, es[5]? = some e ∧
        e.action.OfRun e.before.jobView 1 1 ∧ ∃ job, e.before.inFlight.lookup 1 = some job ∧
          job.token ≠ 1 ∧ e.after.inFlight.lookup 1 = none :=
      ⟨_, rfl, ⟨_, rfl, rfl, rfl⟩, _, rfl, by decide, rfl⟩
    have still := (harmless e (List.mem_of_getElem? he)).undisturbed 1 1 job of present other
    cases gone.symm.trans still.1

/-- The ack comes after the run has returned. -/
def ackedRun : List WorkerEvent :=
  [.start 1, .opened 1, .message (.jobDispatch ⟨1, 1, .null, 1000⟩), .completed 0 (.obj []),
    .message (.jobAck 1), .message (.jobDispatch ⟨1, 2, .null, 1000⟩), .threw 0 "exit code 1"]

theorem stale_harmless_ackedRun :
    ∃ es w, Run step (fresh "w1" 4) es w ∧ ∀ e ∈ es, Harmless e := by
  let es := trace step (fresh "w1" 4) ackedRun
  obtain ⟨w, hw, _⟩ : ∃ w, exec step (fresh "w1" 4) ackedRun = some w ∧
      (w.inFlight.lookup 1).isNone = true := exec_any (by decide)
  have run := run_of_exec ackedRun hw
  have alive : ∀ e ∈ es, e.action ≠ .stop := by
    intro e he stops
    have listed := trace_action_mem ackedRun hw e he
    simp [stops, ackedRun] at listed
  refine ⟨es, w, run, (stale_harmless_iff run alive (by decide)).mpr ?_⟩
  rintro e he ⟨i, result, run, job, returns, hi, present, other⟩
  obtain ⟨k, hk⟩ := List.mem_iff_getElem?.mp he
  match k, hk with
  | 3, hk =>
    cases hk
    cases returns
    cases hi
    cases present
    exact other rfl
  | 0, hk | 1, hk | 2, hk | 4, hk | 5, hk | 6, hk =>
    cases hk
    cases returns
  | k + 7, hk => cases hk

end WorkerService

end Dispatcher
