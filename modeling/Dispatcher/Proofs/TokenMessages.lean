import Dispatcher.Worker.Tokens

namespace Dispatcher
open Runs

def WorkerToCoordMsg.isHeartbeat : WorkerToCoordMsg → Bool
  | .jobHeartbeat _ => true
  | _ => false

/-- Only a present entry sends heartbeats. -/
theorem WorkerStep.beats {v v' : WorkerView} {a : WorkerEvent} {sends : List WorkerToCoordMsg}
    {k : JobId} {t : Token} (step : WorkerStep v a v' sends) (h : .jobHeartbeat ⟨k, t⟩ ∈ sends) :
    v' = v ∧ ∃ job, v.entries k = some job ∧ job.token = t := by
  cases step with
  | aside _ _ silent => cases silent _ h
  | beat _ present =>
    cases List.mem_singleton.mp h
    exact ⟨rfl, _, present, rfl⟩
  | ignored | accepted | acked | returned | superseded | threw | skipped | spent => cases h
  | rejected | completed | failed | retried => cases List.mem_singleton.mp h

namespace WorkerService

def Holds (w : WorkerService) (j : JobId) (t : Token) : Prop :=
  ∃ job, w.inFlight.lookup j = some job ∧ job.token = t

def Accepts (j : JobId) (t : Token) (e : Event WorkerService WorkerEvent) : Prop :=
  e.action.lease = some (j, t) ∧ e.before.inFlight.lookup j = none ∧ e.after.Holds j t

/-- The dispatch `(j, t)` of a job that is not in flight is not accepted. -/
def Rejects (j : JobId) (t : Token) (e : Event WorkerService WorkerEvent) : Prop :=
  e.action.lease = some (j, t) ∧ e.before.inFlight.lookup j = none ∧ ¬ e.after.Holds j t

def Removes (j : JobId) (t : Token) (e : Event WorkerService WorkerEvent) : Prop :=
  e.before.Holds j t ∧ ¬ e.after.Holds j t

def sentBy (t : Token) (e : Event WorkerService WorkerEvent) : List WorkerToCoordMsg :=
  (e.before.sends e.action).filter (·.bears t)

def sentWith (t : Token) (es : List (Event WorkerService WorkerEvent)) : List WorkerToCoordMsg :=
  es.flatMap (sentBy t)

/-- The results and the failures among them. -/
def outcomes (t : Token) (es : List (Event WorkerService WorkerEvent)) : List WorkerToCoordMsg :=
  (sentWith t es).filter fun m => !m.isHeartbeat

inductive Life (t : Token) (es : List (Event WorkerService WorkerEvent)) (v : WorkerView) : Prop where
  | unseen (new : t ∉ (leasesOf es).map Prod.snd)
      (free : ∀ k job, v.entries k = some job → job.token ≠ t) (sent : sentWith t es = [])
      (unremoved : ∀ k, ∀ r ∈ es, ¬ Removes k t r)
      (untried : ∀ k, ∀ r ∈ es, r.action.retries r.before.jobView k t = false)
  | ignored {j : JobId} {e : Event WorkerService WorkerEvent} (he : e ∈ es)
      (lease : e.action.lease = some (j, t)) (present : e.before.inFlight.lookup j ≠ none)
      (free : ∀ k job, v.entries k = some job → job.token ≠ t) (sent : sentWith t es = [])
  | rejected {j : JobId} {e : Event WorkerService WorkerEvent} (he : e ∈ es)
      (rejects : Rejects j t e) (free : ∀ k job, v.entries k = some job → job.token ≠ t)
      (sent : sentWith t es = [.jobFailed ⟨j, t, "worker at capacity", true⟩])
  | held {j : JobId} {job : InFlightJob} {e : Event WorkerService WorkerEvent} (he : e ∈ es)
      (accepts : Accepts j t e) (present : v.entries j = some job) (token : job.token = t)
      (unremoved : ∀ r ∈ es, ¬ Removes j t r)
      (tries : es.countP (fun e => e.action.retries e.before.jobView j t) = job.retryCount)
      (sent : outcomes t es = match job.result with
        | none => []
        | some result => List.replicate (job.retryCount + 1) (.jobResult ⟨j, t, result⟩))
  | finished {j : JobId} {e : Event WorkerService WorkerEvent} (he : e ∈ es) (accepts : Accepts j t e)
      (free : ∀ k job, v.entries k = some job → job.token ≠ t)
      (sent : (∃ result n, n ≤ 6 ∧
          outcomes t es = List.replicate n (.jobResult ⟨j, t, result⟩)) ∨
        ∃ error, outcomes t es = [.jobFailed ⟨j, t, error, false⟩])

section

variable {t : Token} {es : List (Event WorkerService WorkerEvent)}
  {e : Event WorkerService WorkerEvent}

theorem sentWith_snoc :
    sentWith t (es ++ [e]) = sentWith t es ++ sentBy t e := by
  simp [sentWith]

theorem outcomes_snoc :
    outcomes t (es ++ [e]) = outcomes t es ++ (sentBy t e).filter fun m => !m.isHeartbeat := by
  rw [outcomes, sentWith_snoc, List.filter_append]
  rfl

theorem lease_seen {j : JobId} (he : e ∈ es)
    (lease : e.action.lease = some (j, t)) : t ∈ (leasesOf es).map Prod.snd :=
  List.mem_map.mpr ⟨(j, t), List.mem_filterMap.mpr ⟨e, he, lease⟩, rfl⟩

theorem not_removes {j : JobId} {job : InFlightJob} (present : e.after.jobView.entries j = some job)
    (token : job.token = t) : ¬ Removes j t e := fun removes => removes.2 ⟨job, present, token⟩

theorem forall_snoc {P : Event WorkerService WorkerEvent → Prop} (earlier : ∀ r ∈ es, P r)
    (last : P e) : ∀ r ∈ es ++ [e], P r := by
  intro r hr
  rcases List.mem_append.mp hr with hr | hr
  · exact earlier r hr
  · cases List.mem_singleton.mp hr
    exact last

/-- A token that no entry has is not sent, but for a dispatch that brings it. -/
theorem Known.quiet (known : Known es e)
    (free : ∀ k job, e.before.jobView.entries k = some job → job.token ≠ t)
    (other : ∀ lease, e.action.lease = some lease → lease.2 ≠ t) :
    sentBy t e = [] ∧ ∀ k job, e.after.jobView.entries k = some job → job.token ≠ t :=
  known.view.free free other

/-- The dispatch of `f` is the only one of its token. -/
theorem Known.other (known : Known es e) {f : Event WorkerService WorkerEvent} {j : JobId}
    (hf : f ∈ es) (lease : f.action.lease = some (j, t)) :
    ∀ lease, e.action.lease = some lease → lease.2 ≠ t := by
  rintro ⟨k, t'⟩ brought rfl
  exact known.fresh _ brought (lease_seen hf lease)

/-- The dispatch that brings a token decides what its life will be. -/
theorem Life.dispatch {j : JobId} (known : Known es e)
    (free : ∀ k job, e.before.jobView.entries k = some job → job.token ≠ t)
    (sent : sentWith t es = []) (unremoved : ∀ r ∈ es, ¬ Removes j t r)
    (untried : ∀ r ∈ es, r.action.retries r.before.jobView j t = false)
    (lease : e.action.lease = some (j, t)) : Life t (es ++ [e]) e.after.jobView := by
  have view := known.view
  obtain ⟨msg, action, same⟩ := WorkerEvent.lease_eq_some lease
  obtain ⟨rfl, rfl⟩ := Prod.mk.inj same
  have last : e ∈ es ++ [e] := List.mem_append_right _ (List.mem_singleton_self _)
  rw [action] at view
  rcases view.dispatch with ⟨present, unchanged, silent⟩ | ⟨absent, unchanged, silent⟩ |
    ⟨absent, accepted, silent⟩
  · refine .ignored last lease present (unchanged ▸ free) ?_
    rw [sentWith_snoc, sent, sentBy, action, silent]
    rfl
  · refine .rejected last ⟨lease, absent, ?_⟩ (unchanged ▸ free) ?_
    · rintro ⟨job, present, token⟩
      change e.after.jobView.entries _ = some job at present
      rw [unchanged] at present
      exact free _ job present token
    · rw [sentWith_snoc, sent, sentBy, action, silent]
      exact filter_bears_self rfl
  · have present : e.after.jobView.entries msg.jobId = some
        { jobId := msg.jobId, token := msg.token, heartbeatTimer := some e.before.jobView.next } := by
      rw [accepted]
      exact WorkerView.accept_self
    refine .held last ⟨lease, absent, _, present, rfl⟩ present rfl ?_ ?_ ?_
    · exact forall_snoc unremoved (not_removes present rfl)
    · refine List.countP_eq_zero.mpr (forall_snoc (fun r hr => ?_) ?_)
      · simp [untried r hr]
      · simp [action, WorkerEvent.retries]
    · rw [outcomes, sentWith_snoc, sent, sentBy, action, silent]
      rfl

/-- The life of an accepted dispatch goes on, or ends with its entry. -/
theorem Life.entry {j : JobId} {job : InFlightJob} {f : Event WorkerService WorkerEvent}
    (known : Known es e) (hf : f ∈ es) (accepts : Accepts j job.token f)
    (present : e.before.jobView.entries j = some job)
    (unremoved : ∀ r ∈ es, ¬ Removes j job.token r)
    (tries : es.countP (fun e => e.action.retries e.before.jobView j job.token) = job.retryCount)
    (sent : outcomes job.token es = match job.result with
      | none => []
      | some result => List.replicate (job.retryCount + 1) (.jobResult ⟨j, job.token, result⟩)) :
    Life job.token (es ++ [e]) e.after.jobView := by
  have later : f ∈ es ++ [e] := List.mem_append_left _ hf
  have still : ∀ {job'}, e.after.jobView.entries j = some job' → job'.token = job.token →
      ∀ r ∈ es ++ [e], ¬ Removes j job.token r :=
    fun present' token => forall_snoc unremoved (not_removes present' token)
  -- once the entry is gone, no other has its token
  have free : e.after.jobView.entries j = none →
      ∀ k job', e.after.jobView.entries k = some job' → job'.token ≠ job.token := by
    intro gone k job' present' same
    have lease := known.accounted_after.entries k job' present'
    have own : (j, job.token) ∈ leasesOf (es ++ [e]) := by
      rw [leasesOf_snoc]
      exact List.mem_append_left _ (known.accounted.entries j job present)
    rw [same] at lease
    cases known.accounted_after.named lease own
    cases gone.symm.trans present'
  have counted : ∀ {b : Bool}, e.action.retries e.before.jobView j job.token = b →
      (es ++ [e]).countP (fun e => e.action.retries e.before.jobView j job.token) =
      job.retryCount + b.toNat := by
    intro b hb
    rw [List.countP_append, tries, List.countP_singleton, hb]
    cases b <;> rfl
  have few : job.result.isSome = true → job.retryCount < 5 := known.accounted.room known.kept.upkeep present
  -- a removal that sends nothing leaves what was sent before
  have silently : (e.before.sends e.action).filter (·.bears job.token) = [] →
      e.after.jobView.entries j = none → Life job.token (es ++ [e]) e.after.jobView := by
    intro silent gone
    refine .finished later accepts (free gone) ?_
    rw [outcomes_snoc, sent, sentBy, silent]
    cases stored : job.result with
    | none => exact .inl ⟨.null, 0, Nat.zero_le _, rfl⟩
    | some result =>
      have count := few (congrArg Option.isSome stored)
      exact .inl ⟨result, job.retryCount + 1, by omega, List.append_nil _⟩
  cases known.entryStep present with
  | kept same silent idle =>
    refine .held later accepts same rfl (still same rfl) (counted idle) ?_
    rw [outcomes_snoc, sentBy, silent]
    simpa using sent
  | beat same beats idle =>
    refine .held later accepts same rfl (still same rfl) (counted idle) ?_
    rw [outcomes_snoc, sentBy, beats]
    simpa [WorkerToCoordMsg.isHeartbeat] using sent
  | stored working stored sends idle =>
    refine .held later accepts stored rfl (still stored rfl) (counted idle) ?_
    rw [outcomes_snoc, sent, sentBy, sends, working,
      (known.accounted.working j job present working).1]
    rfl
  | retried awaiting _ stored sends fires =>
    refine .held later accepts stored rfl (still stored rfl) (counted fires) ?_
    rw [outcomes_snoc, sent, sentBy, sends, awaiting]
    exact (List.replicate_succ' ..).symm
  | @gaveUp result awaiting _ gone sends _ =>
    refine .finished later accepts (free gone) (.inl ⟨result, job.retryCount + 2, ?_, ?_⟩)
    · have count := few (congrArg Option.isSome awaiting)
      omega
    · rw [outcomes_snoc, sent, sentBy, sends, awaiting]
      exact (List.replicate_succ' ..).symm
  | @failed _ error _ _ _ _ _ working gone sends =>
    refine .finished later accepts (free gone) (.inr ⟨error, ?_⟩)
    rw [outcomes_snoc, sent, sentBy, sends, working]
    rfl
  | acked _ gone silent => exact silently silent gone
  | superseded _ _ _ _ gone silent => exact silently silent gone

/-- One step in the life of a token. -/
theorem Life.step (life : Life t es e.before.jobView) (known : Known es e) :
    Life t (es ++ [e]) e.after.jobView := by
  have later : ∀ {f}, f ∈ es → f ∈ es ++ [e] := fun hf => List.mem_append_left _ hf
  cases life with
  | unseen new free sent unremoved untried =>
    by_cases brings : ∃ j, e.action.lease = some (j, t)
    · obtain ⟨j, lease⟩ := brings
      exact .dispatch known free sent (unremoved j) (untried j) lease
    · have elsewhere : ∀ lease, e.action.lease = some lease → lease.2 ≠ t := by
        rintro ⟨k, t'⟩ brought rfl
        exact brings ⟨k, brought⟩
      obtain ⟨none, free'⟩ := known.quiet free elsewhere
      refine .unseen ?_ free' ?_ (fun k => forall_snoc (unremoved k) ?_)
        (fun k => forall_snoc (untried k) ?_)
      · rw [leasesOf_snoc, List.map_append, List.mem_append, not_or]
        refine ⟨new, ?_⟩
        intro ht
        obtain ⟨lease, hl, rfl⟩ := List.mem_map.mp ht
        exact elsewhere lease (Option.mem_toList.mp hl) rfl
      · rw [sentWith_snoc, sent, none]
        rfl
      · rintro ⟨⟨job, present, token⟩, _⟩
        exact free k job present token
      · by_contra retries
        -- its retry timer would be armed
        obtain ⟨timer, armed⟩ := WorkerEvent.retries_armed (Bool.not_eq_false _ ▸ retries)
        exact new (List.mem_map.mpr ⟨_, known.accounted.retries timer k t armed, rfl⟩)
  | ignored hf lease present free sent =>
    obtain ⟨none, free'⟩ := known.quiet free (known.other hf lease)
    refine .ignored (later hf) lease present free' ?_
    rw [sentWith_snoc, sent, none]
    rfl
  | rejected hf rejects free sent =>
    obtain ⟨none, free'⟩ := known.quiet free (known.other hf rejects.1)
    refine .rejected (later hf) rejects free' ?_
    rw [sentWith_snoc, sent, none]
    rfl
  | finished hf accepts free sent =>
    obtain ⟨none, free'⟩ := known.quiet free (known.other hf accepts.1)
    refine .finished (later hf) accepts free' ?_
    rw [outcomes_snoc, none, List.filter_nil, List.append_nil]
    exact sent
  | held hf accepts present token unremoved tries sent =>
    subst token
    exact .entry known hf accepts present unremoved tries sent

theorem Life.beats (life : Life t es e.before.jobView) (known : Known es e) {k : JobId}
    (h : .jobHeartbeat ⟨k, t⟩ ∈ sentBy t e) :
    ∃ f ∈ es, Accepts k t f ∧ ∀ r ∈ es ++ [e], ¬ Removes k t r := by
  obtain ⟨same, job, present, token⟩ := known.view.beats (List.mem_of_mem_filter h)
  have after : e.after.jobView.entries k = some job := same ▸ present
  cases life with
  | unseen _ free | ignored _ _ _ free | rejected _ _ free | finished _ _ free =>
    exact absurd token (free k job present)
  | @held j job' f hf accepts present' token' unremoved =>
    cases known.accounted.named (token ▸ known.accounted.entries k job present)
      (token' ▸ known.accounted.entries j job' present')
    exact ⟨f, hf, accepts, forall_snoc unremoved (not_removes after token)⟩

/-- Once its entry is gone, a token is not sent. -/
theorem Life.removed (life : Life t es e.before.jobView) (known : Known es e) {j : JobId}
    {r : Event WorkerService WorkerEvent} (hr : r ∈ es) (removes : Removes j t r)
    (lease : (j, t) ∈ leasesOf es) : sentBy t e = [] := by
  cases life with
  | unseen _ _ _ unremoved => exact absurd removes (unremoved j r hr)
  | ignored hf lease _ free => exact (known.quiet free (known.other hf lease)).1
  | rejected hf rejects free => exact (known.quiet free (known.other hf rejects.1)).1
  | finished hf accepts free => exact (known.quiet free (known.other hf accepts.1)).1
  | @held k job f hf accepts present token unremoved =>
    cases known.accounted.named lease (token ▸ known.accounted.entries k job present)
    exact absurd removes (unremoved r hr)

variable {workerId : WorkerId} {limit : Int} {w : WorkerService}

end

end WorkerService

end Dispatcher
