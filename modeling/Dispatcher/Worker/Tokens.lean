import Dispatcher.Worker.Upkeep

namespace Dispatcher
open WorkerView

def WorkerEvent.lease (e : WorkerEvent) : Option (JobId × Token) :=
  e.dispatched.map fun msg => (msg.jobId, msg.token)

/-- Where the tokens of a worker come from, when each has been dispatched once. -/
structure Accounted (leases : List (JobId × Token)) (v : WorkerView) : Prop where
  distinct : (leases.map Prod.snd).Nodup
  entries : ∀ j job, v.entries j = some job → (j, job.token) ∈ leases
  executions : ∀ run ∈ v.executions, (run.jobId, run.token) ∈ leases
  retries : ∀ id j token, ⟨id, .resultRetry j token⟩ ∈ v.timers → (j, token) ∈ leases
  once : (v.executions.map Execution.token).Nodup
  /-- Without a result, nothing has been tried again. -/
  working : ∀ j job, v.entries j = some job → job.result = none → job.retryCount = 0 ∧
    ∀ id k, ⟨id, .resultRetry k job.token⟩ ∉ v.timers
  /-- With a result, the run is over. -/
  awaiting : ∀ j job, v.entries j = some job → job.result.isSome = true →
    ∀ run ∈ v.executions, run.token ≠ job.token

section

variable {leases : List (JobId × Token)} {v v' : WorkerView} {j : JobId} {job job' : InFlightJob}

/-- A token names one job. -/
theorem Accounted.named (h : Accounted leases v) {k : JobId} {token : Token}
    (hj : (j, token) ∈ leases) (hk : (k, token) ∈ leases) : j = k :=
  congrArg Prod.fst (List.inj_on_of_nodup_map h.distinct hj hk rfl)

theorem Accounted.fewer (h : Accounted leases v)
    (entries : ∀ k job, v'.entries k = some job → v.entries k = some job)
    (executions : v'.executions.Sublist v.executions) (timers : v'.timers ⊆ v.timers) :
    Accounted leases v' where
  distinct := h.distinct
  entries k job present := h.entries k job (entries k job present)
  executions run hr := h.executions run (executions.subset hr)
  retries id k token ht := h.retries id k token (timers ht)
  once := h.once.sublist (executions.map Execution.token)
  working := by
    intro k job present none
    obtain ⟨count, unarmed⟩ := h.working k job (entries k job present) none
    exact ⟨count, fun id k' ht => unarmed id k' (timers ht)⟩
  awaiting k job present stored run hr :=
    h.awaiting k job (entries k job present) stored run (executions.subset hr)

theorem Accounted.clear (h : Accounted leases v) (timer : Option TimerId) :
    Accounted leases (v.clear timer) :=
  h.fewer (fun _ _ present => present) (List.Sublist.refl _) List.filter_sublist.subset

theorem Accounted.without (h : Accounted leases v) (i : Nat) : Accounted leases (v.without i) :=
  h.fewer (fun _ _ present => present) (List.eraseIdx_sublist ..) (List.Subset.refl _)

theorem Accounted.remove (h : Accounted leases v) (j : JobId) : Accounted leases (v.remove j) :=
  h.fewer (fun _ _ present => (entries_remove present).2) (List.Sublist.refl _) (List.Subset.refl _)

theorem Accounted.arm (h : Accounted leases v) (present : v.entries j = some job)
    (token : job'.token = job.token) (stored : job'.result.isSome = true)
    (finished : ∀ run ∈ v.executions, run.token ≠ job.token) : Accounted leases (v.arm j job') := by
  have lease : (j, job'.token) ∈ leases := token ▸ h.entries j job present
  have new : ∀ k job₀, (v.arm j job').entries k = some job₀ →
      k = j ∧ job₀.token = job'.token ∧ job₀.result = job'.result ∨ v.entries k = some job₀ ∧ k ≠ j := by
    intro k job₀ present₀
    by_cases same : k = j
    · subst same
      cases Option.some.inj (arm_self.symm.trans present₀)
      exact .inl ⟨rfl, rfl, rfl⟩
    · exact .inr ⟨(arm_of_ne same).symm.trans present₀, same⟩
  constructor
  case distinct => exact h.distinct
  case entries =>
    intro k job₀ present₀
    rcases new k job₀ present₀ with ⟨rfl, same, _⟩ | ⟨before, _⟩
    · exact same ▸ lease
    · exact h.entries k job₀ before
  case executions => exact h.executions
  case retries =>
    intro id k t ht
    rcases List.mem_append.mp ht with ht | ht
    · exact h.retries id k t ht
    · cases List.mem_singleton.mp ht
      exact lease
  case once => exact h.once
  case working =>
    intro k job₀ present₀ none
    rcases new k job₀ present₀ with ⟨_, _, result⟩ | ⟨before, other⟩
    · rw [← result, none] at stored
      cases stored
    · obtain ⟨count, unarmed⟩ := h.working k job₀ before none
      refine ⟨count, ?_⟩
      intro id k' ht
      rcases List.mem_append.mp ht with ht | ht
      · exact unarmed id k' ht
      · have same := List.mem_singleton.mp ht
        simp only [Timer.mk.injEq, Callback.resultRetry.injEq] at same
        exact other (h.named (same.2.2 ▸ h.entries k job₀ before) lease)
  case awaiting =>
    intro k job₀ present₀ stored₀ run hr
    rcases new k job₀ present₀ with ⟨_, same, _⟩ | ⟨before, _⟩
    · rw [same, token]
      exact finished run hr
    · exact h.awaiting k job₀ before stored₀ run hr

theorem Accounted.schedule (h : Accounted leases v) (present : v.entries j = some job)
    (token : job'.token = job.token) (stored : job'.result.isSome = true)
    (finished : ∀ run ∈ v.executions, run.token ≠ job.token) :
    Accounted leases (v.schedule j job') := by
  unfold WorkerView.schedule
  split
  · exact (h.clear _).remove j
  · exact h.arm present token stored finished

theorem Accounted.dispatched (h : Accounted leases v) {lease : JobId × Token}
    (fresh : lease.2 ∉ leases.map Prod.snd) : Accounted (leases ++ [lease]) v where
  distinct := by
    rw [List.map_append]
    refine List.nodup_append.mpr ⟨h.distinct, List.nodup_singleton _, ?_⟩
    intro t ht t' ht' same
    rw [List.mem_singleton.mp ht'] at same
    exact fresh (same ▸ ht)
  entries k job present := List.mem_append_left _ (h.entries k job present)
  executions run hr := List.mem_append_left _ (h.executions run hr)
  retries id k token ht := List.mem_append_left _ (h.retries id k token ht)
  once := h.once
  working := h.working
  awaiting := h.awaiting

theorem Accounted.accept (h : Accounted leases v) {msg : JobDispatch}
    (fresh : msg.token ∉ leases.map Prod.snd) :
    Accounted (leases ++ [(msg.jobId, msg.token)]) (v.accept msg) := by
  have known : Accounted (leases ++ [(msg.jobId, msg.token)]) v := h.dispatched fresh
  have last : (msg.jobId, msg.token) ∈ leases ++ [(msg.jobId, msg.token)] :=
    List.mem_append_right _ (List.mem_singleton_self _)
  have unused : ∀ k, (k, msg.token) ∉ leases := fun k hk =>
    fresh (List.mem_map.mpr ⟨_, hk, rfl⟩)
  have new : ∀ k job, (v.accept msg).entries k = some job →
      k = msg.jobId ∧ job = { jobId := msg.jobId, token := msg.token, heartbeatTimer := some v.next } ∨
      v.entries k = some job := by
    intro k job present
    by_cases same : k = msg.jobId
    · subst same
      exact .inl ⟨rfl, Option.some.inj (present.symm.trans accept_self)⟩
    · exact .inr ((accept_of_ne same).symm.trans present)
  have retry : ∀ id k t, ⟨id, .resultRetry k t⟩ ∈ (v.accept msg).timers →
      ⟨id, .resultRetry k t⟩ ∈ v.timers := by
    intro id k t ht
    rcases List.mem_append.mp ht with ht | ht
    · exact ht
    · cases List.mem_singleton.mp ht
  constructor
  case distinct => exact known.distinct
  case entries =>
    intro k job present
    rcases new k job present with ⟨rfl, rfl⟩ | before
    · exact last
    · exact known.entries k job before
  case executions =>
    intro run hr
    rcases List.mem_append.mp hr with hr | hr
    · exact known.executions run hr
    · rw [List.mem_singleton.mp hr]
      exact last
  case retries => exact fun id k t ht => known.retries id k t (retry id k t ht)
  case once =>
    rw [WorkerView.accept, List.map_append]
    refine List.nodup_append.mpr ⟨h.once, List.nodup_singleton _, ?_⟩
    intro t ht t' ht' same
    obtain ⟨run, hr, rfl⟩ := List.mem_map.mp ht
    rw [List.mem_singleton.mp ht'] at same
    exact unused _ (same ▸ h.executions run hr)
  case working =>
    intro k job present none
    rcases new k job present with ⟨_, rfl⟩ | before
    · exact ⟨rfl, fun id k' ht => unused _ (h.retries id k' msg.token (retry id k' _ ht))⟩
    · obtain ⟨count, unarmed⟩ := h.working k job before none
      exact ⟨count, fun id k' ht => unarmed id k' (retry id k' _ ht)⟩
  case awaiting =>
    intro k job present stored run hr
    rcases new k job present with ⟨_, rfl⟩ | before
    · cases stored
    rcases List.mem_append.mp hr with hr | hr
    · exact h.awaiting k job before stored run hr
    · rw [List.mem_singleton.mp hr]
      intro same
      exact unused _ (same ▸ h.entries k job before)

/-- The other runs have other tokens. -/
theorem Accounted.only (h : Accounted leases v) {i : Nat} {run : Execution}
    (hi : v.executions[i]? = some run) : ∀ run' ∈ (v.without i).executions, run'.token ≠ run.token := by
  intro run' hr same
  obtain ⟨k, other, hk⟩ := List.mem_eraseIdx_iff_getElem?.mp hr
  have tokens : (v.executions.map Execution.token)[k]? = (v.executions.map Execution.token)[i]? := by
    rw [List.getElem?_map, List.getElem?_map, hk, hi]
    exact congrArg some same
  have bound : k < (v.executions.map Execution.token).length := by
    rw [List.length_map]
    exact (List.getElem?_eq_some_iff.mp hk).1
  exact other ((List.getElem?_inj bound h.once).mp tokens)

/-- Every token of a worker came with a dispatch. -/
theorem WorkerStep.accounted {e : WorkerEvent} {sends : List WorkerToCoordMsg}
    (h : Accounted leases v) (step : WorkerStep v e v' sends)
    (fresh : ∀ lease, e.lease = some lease → lease.2 ∉ leases.map Prod.snd) :
    Accounted (leases ++ e.lease.toList) v' := by
  cases step with
  | ignored | rejected => exact h.dispatched (fresh _ rfl)
  | accepted => exact h.accept (fresh (_, _) rfl)
  | aside later other =>
    have none : e.lease = none := by
      cases e with
      | message msg =>
        cases msg with
        | jobDispatch => cases other
        | jobAck | setConcurrency | ping => rfl
      | _ => rfl
    rw [none, Option.toList_none, List.append_nil]
    exact h.fewer (fun _ _ present => present) (List.Sublist.refl _) (List.Subset.refl _)
  | acked present =>
    simpa [WorkerEvent.lease, WorkerEvent.dispatched] using ((h.clear _).clear _).remove _
  | returned | threw => simpa [WorkerEvent.lease, WorkerEvent.dispatched] using h.without _
  | superseded | failed =>
    simpa [WorkerEvent.lease, WorkerEvent.dispatched] using ((h.without _).clear _).remove _
  | @completed i run result job hi present own =>
    have token : ({ job with result := some result } : InFlightJob).token = job.token := rfl
    have next := (h.without i).schedule present token rfl (own ▸ h.only hi)
    simpa [WorkerEvent.lease, WorkerEvent.dispatched] using next
  | beat | skipped => simpa [WorkerEvent.lease, WorkerEvent.dispatched] using h
  | @retried timer j job result armed present stored =>
    have isSome : job.result.isSome = true := congrArg Option.isSome stored
    have token : ({ job with retryCount := job.retryCount + 1 } : InFlightJob).token = job.token := rfl
    have next := (h.clear (some timer)).schedule present token isSome
      (h.awaiting j job present isSome)
    simpa [WorkerEvent.lease, WorkerEvent.dispatched] using next
  | spent => simpa [WorkerEvent.lease, WorkerEvent.dispatched] using h.clear _

end

def WorkerToCoordMsg.bears (t : Token) (m : WorkerToCoordMsg) : Bool := m.claim.any fun p => p.2 = t

theorem filter_bears_ne {m : WorkerToCoordMsg} {k : JobId} {token t : Token}
    (claim : m.claim = some (k, token)) (other : token ≠ t) : [m].filter (·.bears t) = [] := by
  simp [WorkerToCoordMsg.bears, claim, other]

theorem filter_bears_self {m : WorkerToCoordMsg} {k : JobId} {token : Token}
    (claim : m.claim = some (k, token)) : [m].filter (·.bears token) = [m] := by
  simp [WorkerToCoordMsg.bears, claim]

def WorkerEvent.retries (v : WorkerView) (j : JobId) (t : Token) : WorkerEvent → Bool
  | .fire timer => ⟨timer, .resultRetry j t⟩ ∈ v.timers
  | _ => false

theorem WorkerEvent.retries_armed {v : WorkerView} {j : JobId} {t : Token} {e : WorkerEvent}
    (h : e.retries v j t = true) : ∃ timer, ⟨timer, .resultRetry j t⟩ ∈ v.timers := by
  cases e with
  | fire timer => exact ⟨timer, of_decide_eq_true h⟩
  | _ => cases h

/-- What becomes of the entry `job` of `j`, and what is sent with its token. -/
inductive EntryStep (v : WorkerView) (j : JobId) (job : InFlightJob) (e : WorkerEvent)
    (v' : WorkerView) (sends : List WorkerToCoordMsg) : Prop where
  | kept (same : v'.entries j = some job) (silent : sends.filter (·.bears job.token) = [])
      (idle : e.retries v j job.token = false)
  | beat (same : v'.entries j = some job)
      (sent : sends.filter (·.bears job.token) = [.jobHeartbeat ⟨j, job.token⟩])
      (idle : e.retries v j job.token = false)
  | stored {result : Json} (working : job.result = none)
      (present : v'.entries j = some { job with result := some result, retryTimer := some v.next })
      (sent : sends.filter (·.bears job.token) = [.jobResult ⟨j, job.token, result⟩])
      (idle : e.retries v j job.token = false)
  | retried {result : Json} (awaiting : job.result = some result)
      (room : job.retryCount + 1 < MAX_RESULT_RETRIES)
      (present : v'.entries j =
        some { job with retryCount := job.retryCount + 1, retryTimer := some v.next })
      (sent : sends.filter (·.bears job.token) = [.jobResult ⟨j, job.token, result⟩])
      (fires : e.retries v j job.token = true)
  | gaveUp {result : Json} (awaiting : job.result = some result)
      (limit : MAX_RESULT_RETRIES ≤ job.retryCount + 1) (gone : v'.entries j = none)
      (sent : sends.filter (·.bears job.token) = [.jobResult ⟨j, job.token, result⟩])
      (fires : e.retries v j job.token = true)
  | failed {i : Nat} {error : String} {run : Execution} (throws : e = .threw i error)
      (hi : v.executions[i]? = some run) (ofJob : run.jobId = j) (own : run.token = job.token)
      (working : job.result = none) (gone : v'.entries j = none)
      (sent : sends.filter (·.bears job.token) = [.jobFailed ⟨j, job.token, error, false⟩])
  | acked (acks : e = .message (.jobAck j)) (gone : v'.entries j = none)
      (silent : sends.filter (·.bears job.token) = [])
  | superseded {i : Nat} {result : Json} {run : Execution} (returns : e = .completed i result)
      (hi : v.executions[i]? = some run) (ofJob : run.jobId = j) (other : run.token ≠ job.token)
      (gone : v'.entries j = none) (silent : sends.filter (·.bears job.token) = [])

section

variable {leases : List (JobId × Token)} {v v' : WorkerView} {j : JobId} {job : InFlightJob}
  {e : WorkerEvent} {sends : List WorkerToCoordMsg}

/-- A timer that is another's is no retry timer of this entry. -/
theorem Upkeep.retries_eq (h : Upkeep v) {timer : TimerId} {callback : Callback}
    (armed : ⟨timer, callback⟩ ∈ v.timers) (token : Token) :
    (WorkerEvent.fire timer).retries v j token = decide (callback = .resultRetry j token) := by
  by_cases same : callback = .resultRetry j token
  · subst same
    simpa [WorkerEvent.retries] using armed
  · simp only [WorkerEvent.retries, same, decide_false, decide_eq_false_iff_not]
    intro retry
    exact same (congrArg Timer.callback (h.handles.eq_of_id armed retry rfl))

/-- An entry that awaits its ack has a retry left. -/
theorem Accounted.room (h : Accounted leases v) (upkeep : Upkeep v) (present : v.entries j = some job)
    (stored : job.result.isSome = true) : job.retryCount < MAX_RESULT_RETRIES := by
  rcases upkeep.tended j job present with ⟨run, hr, _, same⟩ | ⟨_, count, _⟩
  · exact absurd same (h.awaiting j job present stored run hr)
  · exact count

/-- A step does one of these things to an entry, and sends with its token no more than
they say. -/
theorem Accounted.entryStep (h : Accounted leases v) (upkeep : Upkeep v)
    (step : WorkerStep v e v' sends)
    (fresh : ∀ lease, e.lease = some lease → lease.2 ∉ leases.map Prod.snd)
    (present : v.entries j = some job) : EntryStep v j job e v' sends := by
  have lease := h.entries j job present
  have elsewhere : ∀ k token, (k, token) ∈ leases → k ≠ j → token ≠ job.token := by
    intro k token hk other same
    subst same
    exact other (h.named hk lease)
  have unstored {i : Nat} {run : Execution} (hi : v.executions[i]? = some run)
      (own : job.token = run.token) : job.result = none := by
    by_contra stored
    exact h.awaiting j job present (Option.isSome_iff_ne_none.mpr stored) run
      (List.mem_of_getElem? hi) own.symm
  cases step with
  | aside later other silent =>
    refine .kept present ?_ ?_
    · refine List.filter_eq_nil_iff.mpr fun m hm => ?_
      simp [WorkerToCoordMsg.bears, silent m hm]
    · cases e with
      | fire => cases other
      | _ => rfl
  | ignored _ => exact .kept present rfl rfl
  | @rejected msg absent =>
    refine .kept present (filter_bears_ne rfl ?_) rfl
    intro same
    exact fresh (msg.jobId, msg.token) rfl (List.mem_map.mpr ⟨_, lease, same.symm⟩)
  | @accepted msg absent =>
    refine .kept ?_ rfl rfl
    refine (accept_of_ne ?_).trans present
    rintro rfl
    cases absent.symm.trans present
  | @acked k job' present' =>
    by_cases named : k = j
    · subst named
      exact .acked rfl remove_self rfl
    · exact .kept ((remove_of_ne (Ne.symm named)).trans present) rfl rfl
  | returned hi absent => exact .kept present rfl rfl
  | @superseded i run result current hi present' other =>
    by_cases named : run.jobId = j
    · subst named
      cases Option.some.inj (present.symm.trans present')
      exact .superseded rfl hi rfl (Ne.symm other) remove_self rfl
    · exact .kept ((remove_of_ne (Ne.symm named)).trans present) rfl rfl
  | @completed i run result job' hi present' own =>
    by_cases named : run.jobId = j
    · subst named
      cases Option.some.inj (present.symm.trans present')
      have working := unstored hi own
      obtain ⟨count, _⟩ := h.working _ _ present working
      have room : job.retryCount < MAX_RESULT_RETRIES := count ▸ by decide
      rw [← own]
      exact .stored working (schedule_room room) (filter_bears_self rfl) rfl
    · refine .kept ?_ (filter_bears_ne rfl ?_) rfl
      · exact (schedule_of_ne (Ne.symm named)).trans present
      · exact elsewhere run.jobId run.token (own ▸ h.entries _ _ present') named
  | threw hi other => exact .kept present rfl rfl
  | @failed i run error job' hi present' own =>
    by_cases named : run.jobId = j
    · subst named
      cases Option.some.inj (present.symm.trans present')
      refine .failed rfl hi rfl own.symm (unstored hi own) remove_self ?_
      rw [← own]
      exact filter_bears_self rfl
    · refine .kept ((remove_of_ne (Ne.symm named)).trans present)
        (filter_bears_ne rfl ?_) rfl
      exact elsewhere run.jobId run.token (own ▸ h.entries _ _ present') named
  | @beat timer k job' armed present' =>
    have idle : (WorkerEvent.fire timer).retries v j job.token = false := by
      rw [upkeep.retries_eq armed]
      rfl
    by_cases named : k = j
    · subst named
      cases Option.some.inj (present.symm.trans present')
      exact .beat present (filter_bears_self rfl) idle
    · refine .kept present (filter_bears_ne rfl ?_) idle
      exact elsewhere k job'.token (h.entries _ _ present') named
  | @skipped timer k token armed other =>
    refine .kept present rfl ?_
    rw [upkeep.retries_eq armed]
    rfl
  | @retried timer k job' result armed present' stored =>
    by_cases named : k = j
    · subst named
      cases Option.some.inj (present.symm.trans present')
      have fires : (WorkerEvent.fire timer).retries v k job.token = true := decide_eq_true armed
      by_cases limit : MAX_RESULT_RETRIES ≤ job.retryCount + 1
      · exact .gaveUp stored limit (schedule_full limit) (filter_bears_self rfl) fires
      · have room := Nat.lt_of_not_le limit
        exact .retried stored room (schedule_room room) (filter_bears_self rfl) fires
    · refine .kept ((schedule_of_ne (Ne.symm named)).trans present)
        (filter_bears_ne rfl ?_) ?_
      · exact elsewhere k job'.token (h.entries _ _ present') named
      · rw [upkeep.retries_eq armed]
        simp [named]
  | @spent timer k token armed other =>
    refine .kept present rfl ?_
    rw [upkeep.retries_eq armed]
    simp only [decide_eq_false_iff_not, Callback.resultRetry.injEq, not_and]
    -- a retry timer of an entry without a result would be armed too early
    rintro rfl rfl
    exact (h.working _ _ present (other job present rfl)).2 timer k armed

theorem WorkerEvent.lease_eq_some {lease : JobId × Token} (h : e.lease = some lease) :
    ∃ msg, e = .message (.jobDispatch msg) ∧ (msg.jobId, msg.token) = lease := by
  obtain ⟨msg, hm, rfl⟩ := Option.map_eq_some_iff.mp h
  cases e with
  | message m =>
    cases m with
    | jobDispatch msg' =>
      cases hm
      exact ⟨msg, rfl, rfl⟩
    | jobAck | setConcurrency | ping => cases hm
  | _ => cases hm

/-- What becomes of a dispatch. -/
theorem WorkerStep.dispatch {msg : JobDispatch}
    (step : WorkerStep v (.message (.jobDispatch msg)) v' sends) :
    (v.entries msg.jobId ≠ none ∧ v' = v ∧ sends = []) ∨
    (v.entries msg.jobId = none ∧ v' = v ∧
      sends = [.jobFailed ⟨msg.jobId, msg.token, "worker at capacity", true⟩]) ∨
    (v.entries msg.jobId = none ∧ v' = v.accept msg ∧ sends = []) := by
  cases step with
  | aside _ other => cases other
  | ignored present => exact .inl ⟨by simp [present], rfl, rfl⟩
  | rejected absent => exact .inr (.inl ⟨absent, rfl, rfl⟩)
  | accepted absent => exact .inr (.inr ⟨absent, rfl, rfl⟩)

/-- A token that no entry has is sent by nobody, but for a dispatch that brings it. -/
theorem WorkerStep.free {t : Token} (free : ∀ k job, v.entries k = some job → job.token ≠ t)
    (step : WorkerStep v e v' sends) (other : ∀ lease, e.lease = some lease → lease.2 ≠ t) :
    sends.filter (·.bears t) = [] ∧ ∀ k job, v'.entries k = some job → job.token ≠ t := by
  have removed {u : WorkerView} {j : JobId} (same : u.entries = v.entries) :
      ∀ k job, (u.remove j).entries k = some job → job.token ≠ t :=
    fun k job present => free k job (same ▸ (entries_remove present).2)
  have scheduled {u : WorkerView} {j : JobId} {job : InFlightJob} (same : u.entries = v.entries)
      (token : job.token ≠ t) :
      ∀ k job', (u.schedule j job).entries k = some job' → job'.token ≠ t := by
    intro k job' present
    rcases entries_schedule present with ⟨_, kept⟩ | ⟨_, before⟩
    · exact kept ▸ token
    · exact free k job' (same ▸ before)
  cases step with
  | aside later idle silent =>
    refine ⟨List.filter_eq_nil_iff.mpr fun m hm => ?_, free⟩
    simp [WorkerToCoordMsg.bears, silent m hm]
  | ignored | returned | threw | skipped | spent => exact ⟨rfl, free⟩
  | rejected => exact ⟨filter_bears_ne rfl (other _ rfl), free⟩
  | @accepted msg absent =>
    refine ⟨rfl, ?_⟩
    intro k job present
    by_cases named : k = msg.jobId
    · subst named
      cases Option.some.inj (accept_self.symm.trans present)
      exact other (msg.jobId, msg.token) rfl
    · exact free k job ((accept_of_ne named).symm.trans present)
  | acked | superseded => exact ⟨rfl, removed rfl⟩
  | completed hi present own =>
    have token := free _ _ present
    exact ⟨filter_bears_ne rfl (own ▸ token), scheduled rfl token⟩
  | failed hi present own =>
    exact ⟨filter_bears_ne rfl (own ▸ free _ _ present), removed rfl⟩
  | beat armed present => exact ⟨filter_bears_ne rfl (free _ _ present), free⟩
  | retried armed present =>
    have token := free _ _ present
    exact ⟨filter_bears_ne rfl token, scheduled rfl token⟩

end

namespace WorkerService

def leasesOf (es : List (Runs.Event WorkerService WorkerEvent)) : List (JobId × Token) :=
  es.filterMap fun e => e.action.lease

theorem leasesOf_snoc (es : List (Runs.Event WorkerService WorkerEvent))
    (e : Runs.Event WorkerService WorkerEvent) :
    leasesOf (es ++ [e]) = leasesOf es ++ e.action.lease.toList := by
  rw [leasesOf, List.filterMap_append]
  cases h : e.action.lease <;> simp [leasesOf, h]

/-- Handles and entries in order. -/
structure Kept (w : WorkerService) : Prop where
  named : w.TimersNamed
  upkeep : Upkeep w.jobView

theorem fresh_kept (workerId : WorkerId) (limit : Int) : (fresh workerId limit).Kept where
  named := ⟨List.nodup_nil, fun t ht => by cases ht⟩
  upkeep := by
    refine ⟨⟨List.nodup_nil, ?_, ?_, ?_, ?_⟩, ?_⟩
    · exact fun t ht => by cases ht
    · exact fun id j token ht => by cases ht
    · exact fun j job present => by cases present
    · exact fun j job id present => by cases present
    · exact fun j job present => by cases present

theorem Kept.step {w w' : WorkerService} {e : WorkerEvent} (h : w.Kept)
    (hs : WorkerService.step w e = some w') (alive : e ≠ .stop) : w'.Kept :=
  ⟨step_named h.named hs alive, (step_view h.named hs alive).upkeep h.upkeep⟩

variable {workerId : WorkerId} {limit : Int} {w : WorkerService}
  {es : List (Runs.Event WorkerService WorkerEvent)}

theorem run_kept (run : Runs.Run step (fresh workerId limit) es w)
    (alive : ∀ e ∈ es, e.action ≠ .stop) : w.Kept :=
  run.guarded alive (fresh_kept workerId limit) fun _ _ _ h hs ok => h.step hs ok

theorem run_accounted (run : Runs.Run step (fresh workerId limit) es w)
    (alive : ∀ e ∈ es, e.action ≠ .stop) (distinct : ((leasesOf es).map Prod.snd).Nodup) :
    Accounted (leasesOf es) w.jobView := by
  induction run with
  | nil =>
    refine ⟨List.nodup_nil, ?_, ?_, ?_, List.nodup_nil, ?_, ?_⟩
    · exact fun j job present => by cases present
    · exact fun run hr => by cases hr
    · exact fun id j token ht => by cases ht
    · exact fun j job present => by cases present
    · exact fun j job present => by cases present
  | @snoc es w a w' run hs ih =>
    have earlier : ∀ e ∈ es, e.action ≠ .stop := fun e he => alive e (List.mem_append_left _ he)
    have now := alive ⟨w, a, w'⟩ (List.mem_append_right _ (List.mem_singleton_self _))
    rw [leasesOf_snoc] at distinct ⊢
    rw [List.map_append] at distinct
    obtain ⟨before, _, apart⟩ := List.nodup_append.mp distinct
    refine WorkerStep.accounted (ih earlier before)
      (step_view (run_kept run earlier).named hs now) ?_
    intro lease (hl : a.lease = some lease) known
    exact apart _ known lease.2 (by simp [hl]) rfl

/-- One step of a run of a worker, after the steps `pre`. -/
structure Known (pre : List (Runs.Event WorkerService WorkerEvent))
    (e : Runs.Event WorkerService WorkerEvent) : Prop where
  accounted : Accounted (leasesOf pre) e.before.jobView
  kept : e.before.Kept
  taken : step e.before e.action = some e.after
  alive : e.action ≠ .stop
  fresh : ∀ lease, e.action.lease = some lease → lease.2 ∉ (leasesOf pre).map Prod.snd

theorem run_known {pre post : List (Runs.Event WorkerService WorkerEvent)}
    {e : Runs.Event WorkerService WorkerEvent} (run : Runs.Run step (fresh workerId limit) es w)
    (alive : ∀ e ∈ es, e.action ≠ .stop) (distinct : ((leasesOf es).map Prod.snd).Nodup)
    (split : es = pre ++ e :: post) : Known pre e := by
  subst split
  obtain ⟨before, taken, _⟩ := run.at_split
  have earlier : ∀ f ∈ pre, f.action ≠ .stop := fun f hf => alive f (List.mem_append_left _ hf)
  have parts : leasesOf (pre ++ e :: post) =
      leasesOf pre ++ (e.action.lease.toList ++ leasesOf post) := by
    rw [← List.append_assoc, ← leasesOf_snoc, List.append_cons]
    exact List.filterMap_append
  rw [parts, List.map_append] at distinct
  obtain ⟨first, _, apart⟩ := List.nodup_append.mp distinct
  refine ⟨run_accounted before earlier first, run_kept before earlier, taken, ?_, ?_⟩
  · exact alive e (List.mem_append_right _ List.mem_cons_self)
  · intro lease hl known
    refine apart _ known lease.2 ?_ rfl
    exact List.mem_map.mpr ⟨lease, List.mem_append_left _ (Option.mem_toList.mpr hl), rfl⟩

namespace Known

variable {pre : List (Runs.Event WorkerService WorkerEvent)}
  {e : Runs.Event WorkerService WorkerEvent}

theorem view (h : Known pre e) :
    WorkerStep e.before.jobView e.action e.after.jobView (e.before.sends e.action) :=
  step_view h.kept.named h.taken h.alive

theorem entryStep (h : Known pre e) {j : JobId} {job : InFlightJob}
    (present : e.before.jobView.entries j = some job) :
    EntryStep e.before.jobView j job e.action e.after.jobView (e.before.sends e.action) :=
  h.accounted.entryStep h.kept.upkeep h.view h.fresh present

theorem accounted_after (h : Known pre e) : Accounted (leasesOf (pre ++ [e])) e.after.jobView := by
  rw [leasesOf_snoc]
  exact h.view.accounted h.accounted h.fresh

end Known

end WorkerService

end Dispatcher
