import Dispatcher.Proofs.TokenMessages

namespace Dispatcher
open Runs

section

variable {v v' : WorkerView} {a : WorkerEvent} {sends : List WorkerToCoordMsg} {j : JobId}

/-- An entry keeps its token; a new one has that of the dispatch. -/
theorem WorkerStep.token {job' : InFlightJob} (step : WorkerStep v a v' sends)
    (present : v'.entries j = some job') :
    (∃ job, v.entries j = some job ∧ job.token = job'.token) ∨
    (v.entries j = none ∧ a.lease = some (j, job'.token)) := by
  have scheduled {u : WorkerView} {k : JobId} {job job₀ : InFlightJob} (same : u.entries = v.entries)
      (before : v.entries k = some job₀) (token : job.token = job₀.token)
      (present : (u.schedule k job).entries j = some job') :
      ∃ job, v.entries j = some job ∧ job.token = job'.token := by
    rcases WorkerView.entries_schedule present with ⟨rfl, kept⟩ | ⟨_, present⟩
    · exact ⟨job₀, before, (kept.trans token).symm⟩
    · exact ⟨job', same ▸ present, rfl⟩
  cases step with
  | aside | ignored | rejected | returned | threw | beat | skipped | spent =>
    exact .inl ⟨job', present, rfl⟩
  | @accepted msg absent =>
    by_cases named : j = msg.jobId
    · subst named
      cases Option.some.inj (WorkerView.accept_self.symm.trans present)
      exact .inr ⟨absent, rfl⟩
    · rw [WorkerView.accept_of_ne named] at present
      exact .inl ⟨job', present, rfl⟩
  | acked | superseded | failed =>
    exact .inl ⟨job', (WorkerView.entries_remove present).2, rfl⟩
  | completed _ before | retried _ before =>
    refine .inl (scheduled ?_ before ?_ present)
    all_goals rfl

/-- A heartbeat or a result is of a present entry. -/
theorem WorkerStep.vouched {t : Token} (step : WorkerStep v a v' sends) :
    (.jobHeartbeat ⟨j, t⟩ ∈ sends → ∃ job, v.entries j = some job ∧ job.token = t) ∧
    ∀ result, .jobResult ⟨j, t, result⟩ ∈ sends → ∃ job, v.entries j = some job ∧ job.token = t := by
  refine ⟨fun sent => (step.beats sent).2, ?_⟩
  intro result sent
  cases step with
  | aside _ _ silent => cases silent _ sent
  | completed _ present own =>
    cases List.mem_singleton.mp sent
    exact ⟨_, present, own⟩
  | retried _ present =>
    cases List.mem_singleton.mp sent
    exact ⟨_, present, rfl⟩
  | ignored | accepted | acked | returned | superseded | threw | skipped | spent => cases sent
  | rejected | failed | beat => cases List.mem_singleton.mp sent

end

namespace WorkerService

/-- The tokens of the dispatch that created the entry of `j` and of those received
since. -/
def heardSince (j : JobId) (es : List (Event WorkerService WorkerEvent)) : List Token :=
  es.foldl (fun heard e =>
    if (e.after.inFlight.lookup j).isNone then []
    else match e.action.lease with
      | some (k, t) => if k = j then heard ++ [t] else heard
      | none => heard) []

def Newest (t : Token) (heard : List Token) : Prop := t ∈ heard ∧ ∀ t' ∈ heard, t' ≤ t

/-- Every entry has the newest token heard for its job, and so has every heartbeat and
every result. -/
structure ActsNewest (es : List (Event WorkerService WorkerEvent)) : Prop where
  recorded : ∀ pre e post, es = pre ++ e :: post → ∀ j job,
    e.after.inFlight.lookup j = some job → Newest job.token (heardSince j (pre ++ [e]))
  heartbeats : ∀ pre e post, es = pre ++ e :: post → ∀ j t,
    .jobHeartbeat ⟨j, t⟩ ∈ e.before.sends e.action → Newest t (heardSince j pre)
  results : ∀ pre e post, es = pre ++ e :: post → ∀ j t result,
    .jobResult ⟨j, t, result⟩ ∈ e.before.sends e.action → Newest t (heardSince j pre)

/-- No dispatch for a job in flight has a greater token than its entry. -/
def Ordered (e : Event WorkerService WorkerEvent) : Prop :=
  ∀ j t job, e.action.lease = some (j, t) → e.before.inFlight.lookup j = some job → t ≤ job.token

section

variable {es : List (Event WorkerService WorkerEvent)} {e : Event WorkerService WorkerEvent}
  {j : JobId}

theorem heardSince_snoc : heardSince j (es ++ [e]) =
    if (e.after.inFlight.lookup j).isNone then []
    else match e.action.lease with
      | some (k, t) => if k = j then heardSince j es ++ [t] else heardSince j es
      | none => heardSince j es := by
  rw [heardSince, List.foldl_append]
  rfl

/-- What has been heard of each job, and what its entry says. -/
structure Attentive (es : List (Event WorkerService WorkerEvent)) (w : WorkerService) : Prop where
  absent : ∀ j, w.inFlight.lookup j = none → heardSince j es = []
  newest : ∀ j job, w.inFlight.lookup j = some job → Newest job.token (heardSince j es)

/-- What a worker has heard, it acts on, where tokens come in their order. -/
theorem Attentive.step (h : Attentive es e.before) (kept : e.before.Kept)
    (hs : WorkerService.step e.before e.action = some e.after) (alive : e.action ≠ .stop)
    (ordered : Ordered e) : Attentive (es ++ [e]) e.after where
  absent j gone := by
    rw [heardSince_snoc, gone]
    rfl
  newest := by
    intro j job present
    simp only [heardSince_snoc, present, Option.isNone_some, Bool.false_eq_true, ↓reduceIte]
    rcases (step_view kept.named hs alive).token present with ⟨job₀, before, token⟩ | ⟨before, lease⟩
    · have newest := token ▸ h.newest j job₀ before
      cases lease : e.action.lease with
      | none => exact newest
      | some brought =>
        obtain ⟨k, t⟩ := brought
        by_cases named : k = j
        · subst named
          simp only [↓reduceIte]
          refine ⟨List.mem_append_left _ newest.1, ?_⟩
          intro t' ht
          rcases List.mem_append.mp ht with ht | ht
          · exact newest.2 t' ht
          · rw [List.mem_singleton.mp ht, ← token]
            exact ordered k t job₀ lease before
        · simpa only [named, ↓reduceIte] using newest
    · have none : heardSince j es = [] := h.absent j before
      simp [lease, none, Newest]

variable {workerId : WorkerId} {limit : Int} {w : WorkerService}

/-- A worker is attentive from its start to its stop. -/
theorem run_attentive (run : Run step (fresh workerId limit) es w)
    (alive : ∀ e ∈ es, e.action ≠ .stop) (ordered : ∀ e ∈ es, Ordered e) : Attentive es w := by
  induction run with
  | nil => exact ⟨fun _ _ => rfl, fun _ _ present => by cases present⟩
  | @snoc es w a w' run hs ih =>
    have earlier : ∀ e ∈ es, e ∈ es ++ [(⟨w, a, w'⟩ : Event WorkerService WorkerEvent)] :=
      fun e he => List.mem_append_left _ he
    have last : (⟨w, a, w'⟩ : Event WorkerService WorkerEvent) ∈ es ++ [⟨w, a, w'⟩] :=
      List.mem_append_right _ (List.mem_singleton_self _)
    have before := ih (fun e he => alive e (earlier e he)) fun e he => ordered e (earlier e he)
    exact Attentive.step (e := ⟨w, a, w'⟩) before (run_kept run fun e he => alive e (earlier e he))
      hs (alive _ last) (ordered _ last)

/-- A dispatch for a job in flight changes no entry. -/
theorem step_ignored {t : Token} {job : InFlightJob} (kept : e.before.Kept)
    (hs : WorkerService.step e.before e.action = some e.after) (alive : e.action ≠ .stop)
    (lease : e.action.lease = some (j, t)) (present : e.before.inFlight.lookup j = some job) :
    e.after.inFlight.lookup j = some job := by
  have view := step_view kept.named hs alive
  obtain ⟨msg, action, same⟩ := WorkerEvent.lease_eq_some lease
  obtain ⟨rfl, rfl⟩ := Prod.mk.inj same
  rw [action] at view
  have entries : e.after.jobView = e.before.jobView := by
    rcases view.dispatch with ⟨_, same, _⟩ | ⟨absent, _⟩ | ⟨absent, _⟩
    · exact same
    · cases absent.symm.trans present
    · cases absent.symm.trans present
  exact (congrFun (congrArg WorkerView.entries entries) msg.jobId).trans present

/-- A worker acts under the newest token it has heard exactly when no dispatch brings a
greater one for a job in flight. -/
theorem newest_token_iff (run : Run step (fresh workerId limit) es w)
    (alive : ∀ e ∈ es, e.action ≠ .stop) : ActsNewest es ↔ ∀ e ∈ es, Ordered e := by
  have at_split : ∀ {pre e post}, es = pre ++ e :: post →
      Run step (fresh workerId limit) pre e.before ∧
        WorkerService.step e.before e.action = some e.after ∧ e.before.Kept ∧ e.action ≠ .stop := by
    intro pre e post split
    obtain ⟨before, taken, _⟩ := (split ▸ run).at_split
    refine ⟨before, taken, run_kept before fun f hf => ?_, ?_⟩
    · exact alive f (split ▸ List.mem_append_left _ hf)
    · exact alive e (split ▸ List.mem_append_right _ List.mem_cons_self)
  constructor
  · intro newest e he j t job lease present
    obtain ⟨pre, post, split⟩ := List.append_of_mem he
    obtain ⟨before, taken, kept, now⟩ := at_split split
    have still := step_ignored kept taken now lease present
    refine (newest.recorded pre e post split j job still).2 t ?_
    simp [heardSince_snoc, still, lease]
  · intro ordered
    have attentive : ∀ {pre e post}, es = pre ++ e :: post → Attentive pre e.before := by
      intro pre e post split
      refine run_attentive (at_split split).1 ?_ ?_
      · exact fun f hf => alive f (split ▸ List.mem_append_left _ hf)
      · exact fun f hf => ordered f (split ▸ List.mem_append_left _ hf)
    constructor
    case recorded =>
      intro pre e post split j job present
      obtain ⟨_, taken, kept, now⟩ := at_split split
      have here : e ∈ es := split ▸ List.mem_append_right _ List.mem_cons_self
      exact ((attentive split).step kept taken now (ordered e here)).newest j job present
    case heartbeats =>
      intro pre e post split j t sent
      obtain ⟨_, taken, kept, now⟩ := at_split split
      obtain ⟨job, present, rfl⟩ := (step_view kept.named taken now).vouched.1 sent
      exact (attentive split).newest j job present
    case results =>
      intro pre e post split j t result sent
      obtain ⟨_, taken, kept, now⟩ := at_split split
      obtain ⟨job, present, rfl⟩ := (step_view kept.named taken now).vouched.2 result sent
      exact (attentive split).newest j job present

end

/-- The lease of a job in flight is lost, and the job is dispatched to the same worker
again. -/
def redispatchRun : List WorkerEvent :=
  [.start 1, .opened 1, .message (.jobDispatch ⟨1, 1, .null, 1000⟩),
    .message (.jobDispatch ⟨1, 2, .null, 1000⟩), .fire 0]

theorem redispatchRun_outdated : ∃ es w, Run step (fresh "w1" 4) es w ∧
    (∀ e ∈ es, e.action ≠ .stop) ∧ ¬ ActsNewest es := by
  let es := trace step (fresh "w1" 4) redispatchRun
  obtain ⟨w, hw, _⟩ : ∃ w, exec step (fresh "w1" 4) redispatchRun = some w ∧
      (w.inFlight.lookup 1).isSome = true := exec_any (by decide)
  refine ⟨es, w, run_of_exec redispatchRun hw, ?_, ?_⟩
  · intro e he stops
    have listed := trace_action_mem redispatchRun hw e he
    simp [stops, redispatchRun] at listed
  · intro newest
    -- the heartbeat after the second dispatch bears the token of the first
    obtain ⟨e, split, sent⟩ : ∃ e, es = es.take 4 ++ [e] ∧
        .jobHeartbeat ⟨1, 1⟩ ∈ e.before.sends e.action := ⟨_, rfl, List.Mem.head _⟩
    have heard : heardSince 1 (es.take 4) = [1, 2] := by decide
    have greatest := (newest.heartbeats _ e [] split 1 1 sent).2 2 (by simp [heard])
    exact absurd greatest (by decide)

def reissuedRun : List WorkerEvent :=
  [.start 1, .opened 1, .message (.jobDispatch ⟨1, 1, .null, 1000⟩), .completed 0 (.obj []),
    .message (.jobAck 1), .message (.jobDispatch ⟨1, 2, .null, 1000⟩), .fire 2]

theorem newest_token_reissuedRun :
    ∃ es w, Run step (fresh "w1" 4) es w ∧ ActsNewest es := by
  let es := trace step (fresh "w1" 4) reissuedRun
  obtain ⟨w, hw, _⟩ : ∃ w, exec step (fresh "w1" 4) reissuedRun = some w ∧
      (w.inFlight.lookup 1).isSome = true := exec_any (by decide)
  have run := run_of_exec reissuedRun hw
  have alive : ∀ e ∈ es, e.action ≠ .stop := by
    intro e he stops
    have listed := trace_action_mem reissuedRun hw e he
    simp [stops, reissuedRun] at listed
  refine ⟨es, w, run, (newest_token_iff run alive).mpr ?_⟩
  intro e he j t job lease present
  obtain ⟨k, hk⟩ := List.mem_iff_getElem?.mp he
  match k, hk with
  | 2, hk | 5, hk =>
    cases hk
    cases lease
    cases present
  | 0, hk | 1, hk | 3, hk | 4, hk | 6, hk =>
    cases hk
    cases lease
  | k + 7, hk => cases hk

end WorkerService

end Dispatcher
