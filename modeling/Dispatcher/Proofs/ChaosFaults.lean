import Dispatcher.Chaos.Faults

namespace Dispatcher
open Runs

namespace Chaotic

variable {s₀ s s' : Chaotic} {es : List (Event Chaotic ChaoticAction)} {c : CoordinatorId}
  {startMs : Int}

/-- Time passes along a run, and a deadline that nobody sets stays where it is. -/
theorem run_stands {deadline : ChaosService → Int} {faults : List ChaosAction}
    (stands : ∀ s a s', step s a = some s' → touches c faults ⟨s, a, s'⟩ = false →
      deadline (s'.chaos c) = deadline (s.chaos c))
    (run : Run step s es s') (undisturbed : ∀ e ∈ es, touches c faults e = false) :
    (s.nowMs ≤ s'.nowMs ∧ deadline (s'.chaos c) = deadline (s.chaos c)) ∧
      ∀ e ∈ es, e.before.nowMs ≤ s'.nowMs ∧ deadline (e.before.chaos c) = deadline (s.chaos c) := by
  induction run with
  | nil => exact ⟨⟨Int.le_refl _, rfl⟩, fun e he => (by cases he)⟩
  | @snoc es u a v run taken ih =>
    obtain ⟨⟨from_, here⟩, before⟩ := ih fun e he => undisturbed e (List.mem_append_left _ he)
    have later := step_nowMs taken
    have quiet := undisturbed ⟨u, a, v⟩ (List.mem_append_right _ (List.mem_singleton_self _))
    refine ⟨⟨Int.le_trans from_ later, (stands u a v taken quiet).trans here⟩, ?_⟩
    intro e he
    rcases List.mem_append.mp he with he | he
    · exact ⟨Int.le_trans (before e he).1 later, (before e he).2⟩
    · cases List.mem_singleton.mp he
      exact ⟨later, here⟩

/-- Before a deadline that nobody sets, all of the run is before it. -/
theorem run_within {deadline : ChaosService → Int} {faults : List ChaosAction}
    (stands : ∀ s a s', step s a = some s' → touches c faults ⟨s, a, s'⟩ = false →
      deadline (s'.chaos c) = deadline (s.chaos c))
    (run : Run step s es s') (undisturbed : ∀ e ∈ es, touches c faults e = false)
    (within : s'.nowMs < deadline (s.chaos c)) :
    s'.nowMs < deadline (s'.chaos c) ∧ ∀ e ∈ es, e.before.nowMs < deadline (e.before.chaos c) := by
  obtain ⟨⟨_, last⟩, window⟩ := run_stands stands run undisturbed
  refine ⟨last ▸ within, fun e he => ?_⟩
  obtain ⟨time, same⟩ := window e he
  rw [same]
  exact Int.lt_of_le_of_lt time within

theorem postChaos_valid (now : Int) (action : ChaosAction) (params : ChaosParams)
    (chaos : ChaosService) : (postChaos now (some (.str action.text)) params chaos).2 =
      chaos.apply now action params := by
  cases action <;> rfl

/-- The fault is set, and nothing else. -/
theorem posted_chaos {action : ChaosAction} {params : ChaosParams}
    (posted : step s₀ (.chaos c (some (.str action.text)) params) = some s) :
    s.chaos c = (s₀.chaos c).apply s₀.nowMs action params ∧ s.cluster = s₀.cluster ∧
      s.queries = s₀.queries ∧ s.ticking = s₀.ticking := by
  cases posted
  refine ⟨?_, rfl, rfl, rfl⟩
  rw [← postChaos_valid]
  exact if_pos rfl

/-- A coordinator without its database, up to here: it has asked for no connection, `n`
queries at the most have run, and the next one that it asks for ends its process. -/
structure Closed (c : CoordinatorId) (n : Nat) (es : List (Event Chaotic ChaoticAction))
    (s : Chaotic) : Prop where
  silent : ∀ e ∈ es, c ∉ e.before.connects e.action
  ran : (es.filter (queried c)).length ≤ n
  ends : ∀ a s', step s a = some s' → c ∈ s.connects a → Gone c s'

/-- After `partition_db` with `ms`, and until it is over or somebody else sets or lifts
it, a coordinator that is up runs no more queries than it had issued before, and the next
one that it asks for ends its process. -/
theorem partition_fails_closed {params : ChaosParams}
    (posted : step s₀ (.chaos c (some (.str ChaosAction.partitionDb.text)) params) = some s)
    (run : Run step s es s') (within : s'.nowMs < s₀.nowMs + params.ms.getD 0)
    (undisturbed : ∀ e ∈ es, touches c [.partitionDb, .restoreDb] e = false) :
    Closed c (s₀.live c) es s' := by
  obtain ⟨set, cluster, queries, _⟩ := posted_chaos posted
  have before : s'.nowMs < (s.chaos c).dbPartitionedUntil := by
    rw [set]
    exact within
  obtain ⟨last, window⟩ :=
    run_within (fun _ _ _ taken => (deadlines_stand taken).1) run undisturbed before
  have silent : ∀ e ∈ es, c ∉ e.before.connects e.action := by
    intro e he asks
    have refused := connects_refused (decide_eq_true (window e he)) asks
    have up := undisturbed e he
    simp [touches, stops, refused] at up
  constructor
  case silent => exact silent
  case ran =>
    have paid : ∀ e ∈ es, e.after.live c + (queried c e).toNat ≤
        e.before.live c + ([] : List Unit).length :=
      fun e he => step_live (silent e he) (run.event he).2
    have total := Run.potential (fun u => u.live c) run paid
    have start : s.live c = s₀.live c := by rw [live, cluster, queries, live]
    have none : (es.flatMap fun _ => ([] : List Unit)) = [] :=
      List.flatMap_eq_nil_iff.mpr fun _ _ => rfl
    rw [start, none] at total
    exact (Nat.le_add_left _ _).trans total
  case ends =>
    intro a u taken asks
    exact refused_gone taken (connects_refused (decide_eq_true last) asks)

def calm (c : CoordinatorId) (faults : List ChaosAction) (es : List (Event Chaotic ChaoticAction)) :
    Bool :=
  es.all fun e => !touches c faults e

theorem calm_all {faults : List ChaosAction} (h : calm c faults es = true) :
    ∀ e ∈ es, touches c faults e = false := by
  intro e he
  simpa using List.all_eq_true.mp h e he

/-- A job is submitted, and its DELETE is at the lookup. -/
def deletedRun : List ChaoticAction :=
  [.cluster (.post "c1" (some (.str "k")) (some (.obj []))), .cluster (.resume 0 (.quiet "c1" 0)),
    .cluster (.resume 0 (.quiet "c1" 0)), .cluster (.delete "c1" 0), .query "c1"]

/-- A GET that had its connection is answered, and time passes. -/
def partitionRun : List ChaoticAction := [.answer 0, .elapse 50]

/-- The lookup has its connection too; the transaction after it asks for one. -/
theorem partition_fails_closed_partitionRun : ∃ s₀ s s' u,
    exec step (init 0) deletedRun = some s₀ ∧ s₀.live "c1" = 2 ∧
    step s₀ (.chaos "c1" (some (.str "partition_db")) { ms := some 100 }) = some s ∧
    exec step s partitionRun = some s' ∧
    ((trace step s partitionRun).filter (queried "c1")).length = 1 ∧
    step s' (.cluster (.resume 0 (.quiet "c1" 50))) = some u ∧ Gone "c1" u ∧
    u.cluster.answers.length = s₀.cluster.answers.length ∧
    Closed "c1" 2 (trace step s partitionRun) s' := by
  obtain ⟨s₀, h₀, hp⟩ : ∃ s₀, exec step (init 0) deletedRun = some s₀ ∧
      ((step s₀ (.chaos "c1" (some (.str "partition_db")) { ms := some 100 })).any fun s =>
        (exec step s partitionRun).any fun s' =>
          (step s' (.cluster (.resume 0 (.quiet "c1" 50)))).any fun u =>
            decide (s₀.nowMs = 0 ∧ s'.nowMs = 50 ∧ s₀.live "c1" = 2 ∧
              ((trace step s partitionRun).filter (queried "c1")).length = 1 ∧
              u.cluster.answers.length = s₀.cluster.answers.length ∧
              calm "c1" [.partitionDb, .restoreDb] (trace step s partitionRun) = true ∧
              "c1" ∈ s'.connects (.cluster (.resume 0 (.quiet "c1" 50))))) = true :=
    exec_any (by decide)
  obtain ⟨s, posted, hp⟩ := (Option.any_eq_true _ _).mp hp
  obtain ⟨s', hs, hp⟩ := (Option.any_eq_true _ _).mp hp
  obtain ⟨u, taken, hp⟩ := (Option.any_eq_true _ _).mp hp
  obtain ⟨zero, fifty, two, one, silent, calm, asks⟩ := of_decide_eq_true hp
  have within : s'.nowMs < s₀.nowMs + ({ ms := some 100 } : ChaosParams).ms.getD 0 := by
    rw [zero, fifty]
    decide
  have closed := partition_fails_closed posted (run_of_exec partitionRun hs) within (calm_all calm)
  rw [two] at closed
  exact ⟨s₀, s, s', u, h₀, two, posted, hs, one, taken, closed.ends _ _ taken asks, silent, closed⟩

/-- A coordinator dispatches within its ticks. -/
def Ticking (s : Chaotic) : Prop :=
  ∀ p ∈ s.cluster.tasks, p.2.dispatches = true → s.ticking p.1 = true

theorem follows_dispatches {t t' : Task} (h : t.Follows t') (dispatches : t'.dispatches = true) :
    t.dispatches = true := by
  cases h with
  | dispatched => rfl
  | _ => cases dispatches

theorem message_dispatches {ctx : Ctx} {state : Option WorkerId} {ws : SocketId}
    {msg : WorkerToCoordMsg} {t : Task} (ht : t ∈ onMessage ctx state ws msg) :
    t.dispatches = false := by
  cases msg with
  | workerHello workerId limit | jobFailed msg =>
    cases List.mem_singleton.mp ht
    rfl
  | jobResult msg | jobHeartbeat msg =>
    obtain ⟨workerId, _, rfl⟩ := List.mem_map.mp ht
    rfl
  | pong => cases ht

/-- A dispatch under way was so before, or follows one, or is of a tick. -/
theorem source_dispatches {u : Cluster} {b : Action} {p : CoordinatorId × Task} (h : u.Source b p)
    (dispatches : p.2.dispatches = true) : (∃ t, (p.1, t) ∈ u.tasks ∧ t.dispatches = true) ∨
      ∃ workerId, b = .dispatchTick p.1 workerId := by
  cases h with
  | before hp => exact .inl ⟨_, hp, dispatches⟩
  | follows ht follows => exact .inl ⟨_, ht, follows_dispatches follows dispatches⟩
  | received _ ht => cases (message_dispatches ht).symm.trans dispatches
  | dispatched => exact .inr ⟨_, rfl⟩
  | submitted | deleted | ticked => cases dispatches

theorem Ticking.down (h : s.Ticking) (d : CoordinatorId) : (s.down d).Ticking := by
  intro p hp dispatches
  obtain ⟨hp, other⟩ := List.mem_filter.mp hp
  exact Bool.and_eq_true_iff.mpr ⟨other, h p hp dispatches⟩

theorem Ticking.guarded {a : ChaoticAction} (h : s'.Ticking) : (s.guarded a s').Ticking := by
  unfold Chaotic.guarded
  split
  · exact h.down _
  · exact h

theorem Ticking.after {b : Action} {u : Cluster} (h : s.Ticking) (allowed : s.permits b = true)
    (taken : Cluster.step s.cluster b = some u) : (s.after b u).Ticking := by
  have on : ∀ p ∈ u.tasks, p.2.dispatches = true → s.ticking p.1 = true := by
    intro p hp dispatches
    obtain ⟨source, _⟩ := Cluster.step_source taken hp
    rcases source_dispatches source dispatches with ⟨t, ht, before⟩ | ⟨workerId, rfl⟩
    · exact h (p.1, t) ht before
    · exact (Bool.and_eq_true_iff.mp allowed).1
  cases b with
  | crash c => exact Ticking.down (s := { s with cluster := u, chaos := _ }) on c
  | _ => exact on

theorem step_ticking {a : ChaoticAction} (ticks : s.Ticking) (h : step s a = some s') : s'.Ticking := by
  cases a with
  | cluster b =>
    obtain ⟨u, allowed, taken, rfl⟩ := cluster_step h
    exact (ticks.after allowed taken).guarded
  | query d =>
    cases h
    have still : Ticking { s with queries := s.queries ++ [d] } := ticks
    exact still.guarded
  | chaos d fault params | elapse ms =>
    cases h
    exact ticks
  | answer i =>
    obtain ⟨_, same⟩ := Option.ite_none_right_eq_some.mp h
    cases same
    exact ticks
  | beginTick d =>
    obtain ⟨_, same⟩ := Option.ite_none_right_eq_some.mp h
    cases same
    exact fun p hp dispatches => Bool.or_eq_true_iff.mpr (.inr (ticks p hp dispatches))
  | endTick d =>
    obtain ⟨last, same⟩ := Option.ite_none_right_eq_some.mp h
    cases same
    simp only [Bool.and_eq_true, Bool.not_eq_true', dispatching, List.any_eq_false] at last
    intro p hp dispatches
    have other : p.1 ≠ d := by
      rintro rfl
      exact last.2 p hp (by simp [dispatches])
    exact Bool.and_eq_true_iff.mpr ⟨decide_eq_true other, ticks p hp dispatches⟩

/-- No coordinator is ever at a dispatch between two ticks. -/
theorem ticking_reachable (h : Reachable step (init startMs) s) : s.Ticking := by
  have initial : (init startMs).Ticking := fun p hp => by cases hp
  exact h.invariant initial fun _ _ _ => step_ticking

theorem guarded_ticking {a : ChaoticAction} (idle : s'.ticking c = false) :
    (s.guarded a s').ticking c = false := by
  unfold guarded
  split
  · simp [down, idle]
  · exact idle

/-- A paused coordinator begins no tick. -/
theorem step_paused {a : ChaoticAction} (paused : s.isDispatchPaused c = true)
    (idle : s.ticking c = false) (h : step s a = some s') : s'.ticking c = false := by
  cases a with
  | cluster b =>
    obtain ⟨u, _, _, rfl⟩ := cluster_step h
    refine guarded_ticking ?_
    cases b with
    | crash d => simp [after, down, idle]
    | _ => exact idle
  | query d =>
    cases h
    have still : ({ s with queries := s.queries ++ [d] } : Chaotic).ticking c = false := idle
    exact guarded_ticking still
  | chaos d fault params | elapse ms =>
    cases h
    exact idle
  | answer i =>
    obtain ⟨_, same⟩ := Option.ite_none_right_eq_some.mp h
    cases same
    exact idle
  | beginTick d =>
    obtain ⟨begins, same⟩ := Option.ite_none_right_eq_some.mp h
    cases same
    simp only [Bool.and_eq_true, Bool.not_eq_true'] at begins
    have other : c ≠ d := by
      rintro rfl
      rw [paused] at begins
      cases begins.1.2
    simp [idle, other]
  | endTick d =>
    obtain ⟨_, same⟩ := Option.ite_none_right_eq_some.mp h
    cases same
    simp [idle]

def Undispatched (c : CoordinatorId) (e : Event Chaotic ChaoticAction) : Prop :=
  ∀ b j ctx workerId token, e.action = .cluster b →
    e.before.cluster.event b j = some (.dispatched ctx workerId token) → ctx.coordinatorId ≠ c

/-- A coordinator between two ticks leases no job. -/
theorem undispatched {e : Event Chaotic ChaoticAction} (ticks : e.before.Ticking)
    (idle : e.before.ticking c = false) : Undispatched c e := by
  rintro b j ctx workerId token _ he rfl
  cases b with
  | resume i ctx' =>
    obtain ⟨_, resumed, event⟩ := Option.bind_eq_some_iff.mp he
    obtain ⟨⟨d, t⟩, hi, same⟩ := Option.map_eq_some_iff.mp resumed
    cases same
    have owner := congrArg Ctx.coordinatorId (event_ctx event rfl)
    have dispatches : t.dispatches = true := by
      cases event_cases event
      rfl
    have on := ticks _ (List.mem_of_getElem? hi) dispatches
    rw [owner] at idle
    rw [idle] at on
    cases on
  | _ => cases he

/-- After `pause_dispatch` with `ms` between two ticks, and until it is over or somebody
else sets or lifts it, a coordinator leases no job. -/
theorem pause_holds {params : ChaosParams} (known : Reachable step (init startMs) s₀)
    (idle : s₀.ticking c = false)
    (posted : step s₀ (.chaos c (some (.str ChaosAction.pauseDispatch.text)) params) = some s)
    (run : Run step s es s') (within : s'.nowMs < s₀.nowMs + params.ms.getD 0)
    (undisturbed : ∀ e ∈ es, touches c [.pauseDispatch, .resumeDispatch] e = false) :
    ∀ e ∈ es, Undispatched c e := by
  obtain ⟨set, _, _, ticking⟩ := posted_chaos posted
  have before : s'.nowMs < (s.chaos c).dispatchPausedUntil := by
    rw [set]
    exact within
  obtain ⟨_, window⟩ :=
    run_within (fun _ _ _ taken => (deadlines_stand taken).2.1) run undisturbed before
  have here : Reachable step (init startMs) s := known.snoc posted
  have paused : ∀ e ∈ es, e.before.isDispatchPaused c = true := fun e he =>
    decide_eq_true (window e he)
  have start : s.ticking c = false := by
    rw [ticking]
    exact idle
  intro e he
  obtain ⟨pre, before, _⟩ := run.prefix_of_event he
  have ticks := ticking_reachable (here.trans ⟨pre, before⟩)
  have between := (run.guarded_events paused start
    fun _ _ _ idle taken paused => step_paused paused idle taken) e he
  exact undispatched ticks between.1

/-- The job of another coordinator. -/
def submittedRun : List ChaoticAction :=
  [.cluster (.post "c2" (some (.str "k")) (some (.obj []))), .cluster (.resume 0 (.quiet "c2" 0)),
    .cluster (.resume 0 (.quiet "c2" 0))]

/-- It dispatches the job while the first one is paused. -/
def pausedRun : List ChaoticAction :=
  [.elapse 99, .beginTick "c2", .cluster (.dispatchTick "c2" "w1"),
    .cluster (.resume 0 (.quiet "c2" 99))]

theorem pause_holds_pausedRun : ∃ s₀ s s', exec step (init 0) submittedRun = some s₀ ∧
    step s₀ (.chaos "c1" (some (.str "pause_dispatch")) { ms := some 100 }) = some s ∧
    exec step s pausedRun = some s' ∧ s'.cluster.db.statusOf 0 = some .dispatched ∧
    ∀ e ∈ trace step s pausedRun, Undispatched "c1" e := by
  obtain ⟨s₀, h₀, hp⟩ : ∃ s₀, exec step (init 0) submittedRun = some s₀ ∧
      ((step s₀ (.chaos "c1" (some (.str "pause_dispatch")) { ms := some 100 })).any fun s =>
        (exec step s pausedRun).any fun s' => decide (s₀.ticking "c1" = false ∧ s₀.nowMs = 0 ∧
          s'.nowMs = 99 ∧ s'.cluster.db.statusOf 0 = some .dispatched ∧
          calm "c1" [.pauseDispatch, .resumeDispatch] (trace step s pausedRun) = true)) = true :=
    exec_any (by decide)
  obtain ⟨s, posted, hp⟩ := (Option.any_eq_true _ _).mp hp
  obtain ⟨s', hs, hp⟩ := (Option.any_eq_true _ _).mp hp
  obtain ⟨idle, zero, late, status, calm⟩ := of_decide_eq_true hp
  have within : s'.nowMs < s₀.nowMs + ({ ms := some 100 } : ChaosParams).ms.getD 0 := by
    rw [zero, late]
    decide
  exact ⟨s₀, s, s', h₀, posted, hs, status, pause_holds (reachable_of_exec _ h₀) idle posted
    (run_of_exec pausedRun hs) within (calm_all calm)⟩

/-- The result that `c` accepts in this step, with the socket it came on. -/
def acceptance (c : CoordinatorId) (e : Event Chaotic ChaoticAction) :
    Option (Ctx × SocketId × JobResult) :=
  match e.action with
  | .cluster (.resume i ctx) => match e.before.cluster.tasks[i]? with
    | some (_, .resultTx ws _ msg) =>
      if e.before.accepts (.resume i ctx) = some c then some (ctx, ws, msg) else none
    | _ => none
  | _ => none

def ackDropped (c : CoordinatorId) (e : Event Chaotic ChaoticAction) : Option Bool :=
  (acceptance c e).map fun accepted => accepted.1.dropAck

/-- The acks of `c` in a run: those of the first `n` results that it accepts are dropped,
and each later one goes to the socket of its result, if that is OPEN. -/
structure DropsFirst (c : CoordinatorId) (n : Int) (es : List (Event Chaotic ChaoticAction)) :
    Prop where
  first : es.filterMap (ackDropped c) =
    (List.range (es.filterMap (ackDropped c)).length).map fun (i : Nat) => decide ((i : Int) < n)
  sent : ∀ e ∈ es, ∀ ctx ws msg, acceptance c e = some (ctx, ws, msg) →
    e.after.cluster.sent = e.before.cluster.sent ++
      if ctx.dropAck || !ctx.wsOpen then [] else [(ws, .jobAck msg.jobId)]

theorem acceptance_cases {e : Event Chaotic ChaoticAction} {ctx : Ctx} {ws : SocketId} {msg : JobResult}
    (h : acceptance c e = some (ctx, ws, msg)) : ∃ i workerId, e.action = .cluster (.resume i ctx) ∧
      e.before.accepts (.resume i ctx) = some c ∧
      e.before.cluster.tasks[i]? = some (c, .resultTx ws workerId msg) ∧
      (onResultTx { ctx with coordinatorId := c } workerId msg e.before.cluster.db).1 = true := by
  unfold acceptance at h
  split at h
  next i ctx' ha =>
    split at h
    next d ws' workerId msg' hi =>
      obtain ⟨by_c, same⟩ := Option.ite_none_right_eq_some.mp h
      cases same
      have accepted := by_c
      simp only [accepts, hi, Option.ite_none_right_eq_some, Option.some.injEq] at accepted
      obtain ⟨accepted, rfl⟩ := accepted
      exact ⟨i, workerId, ha, by_c, hi, accepted⟩
    next => cases h
  next => cases h

/-- Where `c` accepts a result, there is one. -/
theorem acceptance_of_accepts {b : Action} (by_c : s.accepts b = some c) :
    ∃ accepted, acceptance c ⟨s, .cluster b, s'⟩ = some accepted := by
  cases b with
  | resume i ctx =>
    have accepted := by_c
    simp only [accepts] at accepted
    split at accepted
    next d ws workerId msg hi => exact ⟨(ctx, ws, msg), by simp only [acceptance, hi, by_c, ↓reduceIte]⟩
    next => cases accepted
  | _ => cases by_c

/-- What the step of an accepted result asks, and what it writes. -/
theorem accepted_sent {b : Action} {ctx : Ctx} {ws : SocketId} {msg : JobResult}
    (h : step s (.cluster b) = some s')
    (accepted : acceptance c ⟨s, .cluster b, s'⟩ = some (ctx, ws, msg)) :
    ctx.dropAck = (s.chaos c).consumeDropAck.1 ∧ s'.cluster.sent = s.cluster.sent ++
      if ctx.dropAck || !ctx.wsOpen then [] else [(ws, .jobAck msg.jobId)] := by
  obtain ⟨i, workerId, same, _, hi, accepted⟩ := acceptance_cases accepted
  cases same
  obtain ⟨u, allowed, taken, rfl⟩ := cluster_step h
  change s.cluster.tasks[i]? = _ at hi
  simp only [permits, hi, Option.all_some, Bool.and_eq_true, decide_eq_true_eq] at allowed
  refine ⟨allowed.2, (guarded_kept _ _ _).2.1.trans ((after_kept _ _ _).2.1.trans ?_)⟩
  simp only [Cluster.step, hi, Option.some.injEq] at taken
  subst taken
  simp only [Cluster.finish, Task.resume, accepted, ↓reduceIte, sendMsg]
  cases ctx.dropAck <;> cases ctx.wsOpen <;> rfl

/-- An accepted result asks once whether its ack is to be dropped. -/
theorem accepted_chaos {b : Action} (h : step s (.cluster b) = some s') (by_c : s.accepts b = some c)
    (quiet : touches c [.dropAcks] ⟨s, .cluster b, s'⟩ = false) :
    s'.chaos c = (s.chaos c).consumeDropAck.2 := by
  obtain ⟨u, _, _, rfl⟩ := cluster_step h
  have up : s.refused (.cluster b) ≠ some c := by
    intro refused
    simp [touches, stops, refused] at quiet
  have kept : (s.guarded (.cluster b) (s.after b u)).chaos c = (s.after b u).chaos c := by
    unfold guarded
    split
    next d found => exact if_neg fun same => up (by rw [found, same])
    next => rfl
  rw [kept]
  cases b with
  | resume i ctx => exact if_pos by_c
  | _ => cases by_c

/-- What a step does to the acks that are still to drop. -/
theorem step_drops {a : ChaoticAction} (h : step s a = some s')
    (quiet : touches c [.dropAcks] ⟨s, a, s'⟩ = false) :
    (ackDropped c ⟨s, a, s'⟩ = none ∧ (s'.chaos c).dropAcksRemaining = (s.chaos c).dropAcksRemaining) ∨
      ackDropped c ⟨s, a, s'⟩ = some (decide (0 < (s.chaos c).dropAcksRemaining)) ∧
        (s'.chaos c).dropAcksRemaining = (s.chaos c).dropAcksRemaining -
          if 0 < (s.chaos c).dropAcksRemaining then 1 else 0 := by
  by_cases accepts : ∃ b, a = .cluster b ∧ s.accepts b = some c
  · obtain ⟨b, rfl, by_c⟩ := accepts
    obtain ⟨⟨ctx, ws, msg⟩, accepted⟩ : ∃ accepted, acceptance c ⟨s, .cluster b, s'⟩ = some accepted :=
      acceptance_of_accepts by_c
    obtain ⟨consumes, _⟩ := accepted_sent h accepted
    have after : s'.chaos c = (s.chaos c).consumeDropAck.2 := accepted_chaos h by_c quiet
    right
    simp only [ackDropped, accepted, Option.map_some, consumes, after, Option.some.injEq]
    unfold ChaosService.consumeDropAck
    split
    next spent =>
      have none : ¬ 0 < (s.chaos c).dropAcksRemaining := Int.not_lt.mpr spent
      simp [none]
    next more =>
      have some : 0 < (s.chaos c).dropAcksRemaining := Int.not_le.mp more
      simp [some]
  · refine .inl ⟨?_, ((deadlines_stand h).2.2 quiet).resolve_right accepts⟩
    refine Option.map_eq_none_iff.mpr (Option.eq_none_iff_forall_ne_some.mpr fun found taken => ?_)
    obtain ⟨i, _, same, by_c, _⟩ := acceptance_cases taken
    exact accepts ⟨_, same, by_c⟩

/-- One more ack. -/
theorem range_succ_drops {flags : List Bool} {n left : Int}
    (first : flags = (List.range flags.length).map fun (i : Nat) => decide ((i : Int) < n))
    (rest : left = n - flags.length ∨ left ≤ 0 ∧ n ≤ flags.length) :
    flags ++ [decide (0 < left)] =
      (List.range (flags.length + 1)).map fun (i : Nat) => decide ((i : Int) < n) := by
  rw [List.range_succ, List.map_append, ← first, List.map_singleton]
  congr 2
  rw [decide_eq_decide]
  omega

/-- After any number of accepted results: those whose acks were dropped came first, and
what is still to drop is what they have left. -/
theorem run_drops (run : Run step s es s') (quiet : ∀ e ∈ es, touches c [.dropAcks] e = false) :
    (es.filterMap (ackDropped c) = (List.range (es.filterMap (ackDropped c)).length).map
      fun (i : Nat) => decide ((i : Int) < (s.chaos c).dropAcksRemaining)) ∧
    ((s'.chaos c).dropAcksRemaining =
        (s.chaos c).dropAcksRemaining - (es.filterMap (ackDropped c)).length ∨
      (s'.chaos c).dropAcksRemaining ≤ 0 ∧
        (s.chaos c).dropAcksRemaining ≤ (es.filterMap (ackDropped c)).length) := by
  induction run with
  | nil => simp
  | @snoc es u a v run taken ih =>
    obtain ⟨first, rest⟩ := ih fun e he => quiet e (List.mem_append_left _ he)
    have last := quiet ⟨u, a, v⟩ (List.mem_append_right _ (List.mem_singleton_self _))
    rw [List.filterMap_append]
    rcases step_drops taken last with ⟨silent, same⟩ | ⟨flag, less⟩
    · rw [List.filterMap_cons_none silent, List.filterMap_nil, List.append_nil, same]
      exact ⟨first, rest⟩
    · rw [List.filterMap_cons_some flag, List.filterMap_nil, List.length_append, List.length_singleton]
      refine ⟨range_succ_drops first rest, ?_⟩
      rw [less]
      split <;> omega

/-- After `drop_acks` with `n`, and until it is set again or the coordinator crashes,
exactly the first `n` results that it accepts go without an ack. -/
theorem drop_acks_first {params : ChaosParams}
    (posted : step s₀ (.chaos c (some (.str ChaosAction.dropAcks.text)) params) = some s)
    (run : Run step s es s') (quiet : ∀ e ∈ es, touches c [.dropAcks] e = false) :
    DropsFirst c (params.n.getD 0) es := by
  obtain ⟨set, _⟩ := posted_chaos posted
  have remaining : (s.chaos c).dropAcksRemaining = params.n.getD 0 := by
    rw [set]
    rfl
  constructor
  case first => exact remaining ▸ (run_drops run quiet).1
  case sent =>
    intro e he ctx ws msg accepted
    obtain ⟨i, _, action, _⟩ := acceptance_cases accepted
    obtain ⟨before, a, after⟩ := e
    cases action
    exact (accepted_sent (run.event he).2 accepted).2

def dispatchedRun : List ChaoticAction :=
  [.cluster (.post "c1" (some (.str "k")) (some (.obj []))), .cluster (.resume 0 (.quiet "c1" 0)),
    .cluster (.resume 0 (.quiet "c1" 0)), .elapse 1,
    .cluster (.post "c1" (some (.str "l")) (some (.obj []))), .cluster (.resume 0 (.quiet "c1" 1)),
    .cluster (.resume 0 (.quiet "c1" 1)), .cluster (.workerSend 7 (.workerHello "w1" 2)),
    .cluster (.receive "c1" 0 (.quiet "c1" 1)), .cluster (.resume 0 (.quiet "c1" 1)),
    .beginTick "c1", .cluster (.dispatchTick "c1" "w1"), .cluster (.resume 0 (.quiet "c1" 1)),
    .cluster (.resume 0 (.quiet "c1" 1)), .cluster (.dispatchTick "c1" "w1"),
    .cluster (.resume 0 (.quiet "c1" 1)), .cluster (.resume 0 (.quiet "c1" 1)), .endTick "c1"]

def resultsRun : List ChaoticAction :=
  [.cluster (.workerSend 7 (.jobResult ⟨0, 1, .obj []⟩)), .cluster (.receive "c1" 1 (.quiet "c1" 1)),
    .cluster (.resume 0 { Ctx.quiet "c1" 1 with dropAck := true }),
    .cluster (.resume 0 { Ctx.quiet "c1" 1 with dropAck := true }),
    .cluster (.workerSend 7 (.jobResult ⟨1, 2, .obj []⟩)), .cluster (.receive "c1" 2 (.quiet "c1" 1)),
    .cluster (.resume 0 (.quiet "c1" 1)), .cluster (.resume 0 (.quiet "c1" 1))]

theorem drop_acks_first_resultsRun : ∃ s₀ s s', exec step (init 0) dispatchedRun = some s₀ ∧
    step s₀ (.chaos "c1" (some (.str "drop_acks")) { n := some 1 }) = some s ∧
    exec step s resultsRun = some s' ∧
    (trace step s resultsRun).filterMap (ackDropped "c1") = [true, false] ∧
    (s'.cluster.sent.drop s.cluster.sent.length).map Prod.fst = [7] ∧
    DropsFirst "c1" 1 (trace step s resultsRun) := by
  obtain ⟨s₀, h₀, hp⟩ : ∃ s₀, exec step (init 0) dispatchedRun = some s₀ ∧
      ((step s₀ (.chaos "c1" (some (.str "drop_acks")) { n := some 1 })).any fun s =>
        (exec step s resultsRun).any fun s' => decide (
          (trace step s resultsRun).filterMap (ackDropped "c1") = [true, false] ∧
          (s'.cluster.sent.drop s.cluster.sent.length).map Prod.fst = [7] ∧
          calm "c1" [.dropAcks] (trace step s resultsRun) = true)) = true :=
    exec_any (by decide)
  obtain ⟨s, posted, hp⟩ := (Option.any_eq_true _ _).mp hp
  obtain ⟨s', hs, hp⟩ := (Option.any_eq_true _ _).mp hp
  obtain ⟨flags, acked, calm⟩ := of_decide_eq_true hp
  exact ⟨s₀, s, s', h₀, posted, hs, flags, acked,
    drop_acks_first posted (run_of_exec resultsRun hs) (calm_all calm)⟩

end Chaotic

end Dispatcher
