import Mathlib.Data.List.Perm.Basic
import Dispatcher.Cluster.Events
import Dispatcher.Model.Chaos

namespace Dispatcher
open Runs

inductive Task.Follows : Task → Task → Prop where
  | found {ws : SocketId} {workerId : WorkerId} {msg : JobResult} :
      Follows (.resultLookup ws workerId msg) (.resultTx ws workerId msg)
  | missed {ws : SocketId} {workerId : WorkerId} {msg : JobResult} :
      Follows (.resultLookup ws workerId msg) (.resultReAck ws msg)
  | rejected {ws : SocketId} {workerId : WorkerId} {msg : JobResult} :
      Follows (.resultTx ws workerId msg) (.resultReAck ws msg)
  | dispatched {workerId : WorkerId} {job : Dispatched} :
      Follows (.dispatchTx workerId) (.dispatchSend workerId job)
  | unknown {key : String} {payload : Json} : Follows (.submitLookup key payload) (.submitTx key payload)
  | raced {key : String} {payload : Json} : Follows (.submitTx key payload) (.submitWinner key payload)
  | pending {jobId : JobId} : Follows (.cancelLookup jobId) (.cancelTx jobId)

theorem resume_follows {ctx : Ctx} {wsOf : WorkerId → Option SocketId} {db : Db} {t t' : Task}
    (ht : t' ∈ (t.resume ctx wsOf db).next) : t.Follows t' := by
  cases t with
  | helloUpsert | failedTx | heartbeatUpdate | reaperTx | submitWinner | cancelTx => cases ht
  | resultLookup | resultTx | resultReAck | dispatchTx | dispatchSend | submitLookup | submitTx
  | cancelLookup =>
    simp only [Task.resume] at ht
    repeat' split at ht
    all_goals first
      | cases ht; done
      | cases List.mem_singleton.mp ht; constructor

theorem fail_follows {db : Db} {error : String} {t t' : Task} (ht : t' ∈ (t.fail db error).next) :
    t.Follows t' := by
  cases t with
  | resultLookup | submitLookup =>
    cases List.mem_singleton.mp ht
    constructor
  | _ => cases ht

namespace Cluster

/-- Where a handler that is suspended after a step comes from. -/
inductive Source (u : Cluster) : Action → CoordinatorId × Task → Prop where
  | before {b : Action} {p : CoordinatorId × Task} (hp : p ∈ u.tasks) : Source u b p
  | follows {b : Action} {c : CoordinatorId} {t t' : Task} (ht : (c, t) ∈ u.tasks)
      (follows : t.Follows t') : Source u b (c, t')
  | submitted {c : CoordinatorId} {idempotencyKey payload : Option Json} {key : String}
      {payload' : Json} : Source u (.post c idempotencyKey payload) (c, .submitLookup key payload')
  | deleted {c : CoordinatorId} {jobId : JobId} : Source u (.delete c jobId) (c, .cancelLookup jobId)
  | received {c : CoordinatorId} {k : Nat} {ctx : Ctx} {ws : SocketId} {msg : WorkerToCoordMsg}
      {t : Task} (hk : u.wire[k]? = some (ws, msg)) (ht : t ∈ onMessage ctx (u.stateByWs c ws) ws msg) :
      Source u (.receive c k ctx) (c, t)
  | dispatched {c : CoordinatorId} {workerId : WorkerId} :
      Source u (.dispatchTick c workerId) (c, .dispatchTx workerId)
  | ticked {c : CoordinatorId} {ctx : Ctx} :
      Source u (.reaperTick c ctx) (c, .reaperTx (ctx.nowMs + ctx.skewMs))

/-- Whatever is suspended after a step was so before, or the step has a reason for it; and
nothing is left of a coordinator that crashes. -/
theorem step_source {u u' : Cluster} {b : Action} (h : step u b = some u')
    {p : CoordinatorId × Task} (hp : p ∈ u'.tasks) : u.Source b p ∧ Chaotic.crashes b p.1 = false := by
  have spawned : ∀ {c : CoordinatorId} {next : List Task}, p ∈ (u.spawn c next).tasks →
      (∀ t ∈ next, u.Source b (c, t)) → u.Source b p := by
    intro c next hp started
    rcases List.mem_append.mp hp with hp | hp
    · exact .before hp
    · obtain ⟨t, ht, rfl⟩ := List.mem_map.mp hp
      exact started t ht
  cases step_moves h with
  | refused | written | left | skipped => exact ⟨.before hp, rfl⟩
  | crashed =>
    obtain ⟨hp, other⟩ := List.mem_filter.mp hp
    have survives := of_decide_eq_true other
    exact ⟨.before hp, decide_eq_false (Ne.symm survives)⟩
  | submitted => exact ⟨spawned hp (List.forall_mem_singleton.mpr .submitted), rfl⟩
  | deleted => exact ⟨spawned hp (List.forall_mem_singleton.mpr .deleted), rfl⟩
  | dispatched => exact ⟨spawned hp (List.forall_mem_singleton.mpr .dispatched), rfl⟩
  | reaped => exact ⟨spawned hp (List.forall_mem_singleton.mpr .ticked), rfl⟩
  | received hk => exact ⟨spawned hp fun _ => .received hk, rfl⟩
  | resumed hi =>
    refine ⟨?_, rfl⟩
    rcases List.mem_append.mp hp with hp | hp
    · exact .before (List.mem_of_mem_eraseIdx hp)
    · obtain ⟨t, ht, rfl⟩ := List.mem_map.mp hp
      exact .follows (List.mem_of_getElem? hi) (resume_follows ht)
  | failed hi =>
    refine ⟨?_, rfl⟩
    rcases List.mem_append.mp hp with hp | hp
    · exact .before (List.mem_of_mem_eraseIdx hp)
    · obtain ⟨t, ht, rfl⟩ := List.mem_map.mp hp
      exact .follows (List.mem_of_getElem? hi) (fail_follows ht)

theorem step_fresh {u u' : Cluster} {b : Action} (h : step u b = some u') :
    ∃ (c : CoordinatorId) (next : List Task), u'.tasks = u.remaining b ++ next.map fun t => (c, t) := by
  cases step_moves h with
  | submitted | deleted | dispatched | reaped | received | resumed | failed => exact ⟨_, _, rfl⟩
  | crashed | refused | written | left | skipped => exact ⟨"", [], (List.append_nil _).symm⟩

end Cluster

namespace Chaotic

variable {s s' : Chaotic} {a : ChaoticAction}

/-- A step of the cluster is taken as far as the chaos services permit it, and then
guarded. -/
theorem cluster_step {b : Action} (h : step s (.cluster b) = some s') : ∃ u,
    s.permits b = true ∧ Cluster.step s.cluster b = some u ∧
      s' = s.guarded (.cluster b) (s.after b u) := by
  obtain ⟨allowed, moved⟩ := Option.ite_none_right_eq_some.mp h
  obtain ⟨u, taken, rfl⟩ := Option.map_eq_some_iff.mp moved
  exact ⟨u, allowed, taken, rfl⟩

/-- The guard takes nothing back of what the step has written. -/
theorem guarded_kept (s s' : Chaotic) (a : ChaoticAction) :
    (s.guarded a s').cluster.db = s'.cluster.db ∧ (s.guarded a s').cluster.sent = s'.cluster.sent ∧
      (s.guarded a s').nowMs = s'.nowMs := by
  unfold guarded
  split <;> exact ⟨rfl, rfl, rfl⟩

theorem after_kept (s : Chaotic) (b : Action) (u : Cluster) :
    (s.after b u).cluster.db = u.db ∧ (s.after b u).cluster.sent = u.sent ∧
      (s.after b u).nowMs = s.nowMs := by
  cases b <;> exact ⟨rfl, rfl, rfl⟩

theorem guarded_tasks {p : CoordinatorId × Task} (hp : p ∈ (s.guarded a s').cluster.tasks) :
    p ∈ s'.cluster.tasks ∧ s.refused a ≠ some p.1 := by
  unfold guarded at hp
  split at hp
  next c found =>
    obtain ⟨hp, other⟩ := List.mem_filter.mp hp
    refine ⟨hp, fun same => ?_⟩
    cases found.symm.trans same
    exact of_decide_eq_true other rfl
  next none => exact ⟨hp, by rw [none]; exact nofun⟩

theorem after_tasks {b : Action} {u : Cluster} {p : CoordinatorId × Task}
    (hp : p ∈ (s.after b u).cluster.tasks) : p ∈ u.tasks := by
  cases b with
  | crash c => exact List.mem_of_mem_filter hp
  | _ => exact hp

/-- A suspended handler was suspended before, or this step of the cluster made it so. -/
theorem step_tasks (h : step s a = some s') {p : CoordinatorId × Task} (hp : p ∈ s'.cluster.tasks) :
    p ∈ s.cluster.tasks ∨ ∃ b, a = .cluster b ∧ s.cluster.Source b p := by
  cases a with
  | cluster b =>
    obtain ⟨u, _, taken, rfl⟩ := cluster_step h
    exact .inr ⟨b, rfl, (Cluster.step_source taken (after_tasks (guarded_tasks hp).1)).1⟩
  | query c =>
    cases h
    exact .inl (guarded_tasks hp).1
  | chaos c fault params | elapse ms =>
    cases h
    exact .inl hp
  | answer | beginTick | endTick =>
    obtain ⟨_, same⟩ := Option.ite_none_right_eq_some.mp h
    cases same
    exact .inl hp

/-- The database changes as in a step of the cluster, or not at all. -/
theorem step_db (h : step s a = some s') : s'.cluster.db = s.cluster.db ∧ (∀ b, a ≠ .cluster b) ∨
    ∃ b u, a = .cluster b ∧ Cluster.step s.cluster b = some u ∧ s'.cluster.db = u.db := by
  cases a with
  | cluster b =>
    obtain ⟨u, _, taken, rfl⟩ := cluster_step h
    exact .inr ⟨b, u, rfl, taken, (guarded_kept _ _ _).1.trans (after_kept _ _ _).1⟩
  | query c =>
    cases h
    exact .inl ⟨(guarded_kept _ _ _).1, fun b same => by cases same⟩
  | chaos c fault params | elapse ms =>
    cases h
    exact .inl ⟨rfl, fun b same => by cases same⟩
  | answer | beginTick | endTick =>
    obtain ⟨_, same⟩ := Option.ite_none_right_eq_some.mp h
    cases same
    exact .inl ⟨rfl, fun b same => by cases same⟩

theorem step_nowMs (h : step s a = some s') : s.nowMs ≤ s'.nowMs := by
  cases a with
  | cluster b =>
    obtain ⟨u, _, _, rfl⟩ := cluster_step h
    exact Int.le_of_eq ((guarded_kept _ _ _).2.2.trans (after_kept _ _ _).2.2).symm
  | query c =>
    cases h
    obtain ⟨_, _, same⟩ := guarded_kept s { s with queries := s.queries ++ [c] } (.query c)
    exact Int.le_of_eq same.symm
  | elapse ms =>
    cases h
    exact Int.le_add_of_nonneg_right (Int.natCast_nonneg ms)
  | chaos c fault params =>
    cases h
    exact Int.le_refl _
  | answer | beginTick | endTick =>
    obtain ⟨_, same⟩ := Option.ite_none_right_eq_some.mp h
    cases same
    exact Int.le_refl _

/-- The process of `c` ends in this step, by a crash or by a query that is refused. -/
def stops (s : Chaotic) (c : CoordinatorId) (a : ChaoticAction) : Bool :=
  s.refused a = some c || match a with
    | .cluster b => crashes b c
    | _ => false

structure Gone (c : CoordinatorId) (s : Chaotic) : Prop where
  tasks : ∀ p ∈ s.cluster.tasks, p.1 ≠ c
  registry : ∀ r ∈ s.cluster.registry, r.coordinatorId ≠ c
  queries : c ∉ s.queries
  faults : s.chaos c = {}
  idle : s.ticking c = false

theorem gone_down (s : Chaotic) (c : CoordinatorId) : Gone c (s.down c) := by
  constructor
  case tasks => exact fun p hp => of_decide_eq_true (List.mem_filter.mp hp).2
  case registry => exact fun r hr => of_decide_eq_true (List.mem_filter.mp hr).2
  case queries => exact fun hc => of_decide_eq_true (List.mem_filter.mp hc).2 rfl
  case faults => exact if_pos rfl
  case idle => simp [down]

/-- All that asks for a connection in one step is of one coordinator. -/
theorem connects_owner {c d : CoordinatorId} (hc : c ∈ s.connects a) (hd : d ∈ s.connects a) :
    c = d := by
  cases a with
  | cluster b =>
    simp only [connects] at hc hd
    split at hc
    next u taken =>
      obtain ⟨e, next, tasks⟩ := Cluster.step_fresh taken
      simp only [taken] at hd
      rw [tasks, List.drop_left] at hc hd
      have owner {c : CoordinatorId} (hc : c ∈ ((next.map fun t => (e, t)).filter
          fun p => p.2.queries).map Prod.fst) : c = e := by
        obtain ⟨p, hp, rfl⟩ := List.mem_map.mp hc
        obtain ⟨t, _, rfl⟩ := List.mem_map.mp (List.mem_of_mem_filter hp)
        rfl
      exact (owner hc).trans (owner hd).symm
    next => cases hc
  | query e => exact (List.mem_singleton.mp hc).trans (List.mem_singleton.mp hd).symm
  | _ => cases hc

/-- A coordinator that asks for a connection while its database is partitioned ends. -/
theorem connects_refused {c : CoordinatorId} (cut : s.isDbPartitioned c = true)
    (asks : c ∈ s.connects a) : s.refused a = some c := by
  cases found : s.refused a with
  | none => exact absurd cut (List.find?_eq_none.mp found c asks)
  | some d => rw [connects_owner asks (List.mem_of_find?_eq_some found)]

/-- A refused connection ends the process. -/
theorem refused_gone {c : CoordinatorId} (h : step s a = some s') (refused : s.refused a = some c) :
    Gone c s' := by
  have ends (u : Chaotic) : Gone c (s.guarded a u) := by
    simp only [guarded, refused]
    exact gone_down u c
  cases a with
  | cluster b =>
    obtain ⟨u, _, _, rfl⟩ := cluster_step h
    exact ends _
  | query d =>
    cases h
    exact ends _
  | _ => cases refused

def live (s : Chaotic) (c : CoordinatorId) : Nat :=
  s.cluster.tasks.countP (fun p => p.1 = c && p.2.queries) + s.queries.count c

/-- The step runs a query or a transaction of `c`. -/
def queried (c : CoordinatorId) (e : Event Chaotic ChaoticAction) : Bool :=
  match e.action with
  | .cluster (.resume i _) => (e.before.cluster.tasks[i]?).any fun p => p.1 = c && p.2.queries
  | .answer i => e.before.queries[i]? = some c
  | _ => false

theorem down_live (s : Chaotic) (c d : CoordinatorId) : (s.down d).live c ≤ s.live c :=
  Nat.add_le_add List.filter_sublist.countP_le (List.filter_sublist.count_le c)

theorem guarded_live (s s' : Chaotic) (a : ChaoticAction) (c : CoordinatorId) :
    (s.guarded a s').live c ≤ s'.live c := by
  unfold guarded
  split
  · exact down_live s' c _
  · exact Nat.le_refl _

theorem countP_eraseIdx {α : Type} {p : α → Bool} {xs : List α} {i : Nat} {x : α}
    (hx : xs[i]? = some x) :
    (xs.eraseIdx i).countP p + (p x).toNat = xs.countP p := by
  obtain ⟨hi, rfl⟩ := List.getElem?_eq_some_iff.mp hx
  rw [← (List.getElem_cons_eraseIdx_perm hi).countP_eq p, List.countP_cons]
  cases p xs[i] <;> rfl

/-- Where a step asks for no connection of `c`, its queries only become fewer. -/
theorem after_live {c : CoordinatorId} {b : Action} {u : Cluster}
    (taken : Cluster.step s.cluster b = some u) (silent : c ∉ s.connects (.cluster b)) :
    (s.after b u).live c + (queried c ⟨s, .cluster b, s'⟩).toNat ≤ s.live c := by
  obtain ⟨d, next, tasks⟩ := Cluster.step_fresh taken
  have fresh : (next.map fun t => (d, t)).countP (fun p => p.1 = c && p.2.queries) = 0 := by
    refine List.countP_eq_zero.mpr fun p hp ours => silent ?_
    obtain ⟨same, queries⟩ := Bool.and_eq_true_iff.mp ours
    simp only [connects, taken, tasks, List.drop_left]
    exact List.mem_map.mpr ⟨p, List.mem_filter.mpr ⟨hp, queries⟩, of_decide_eq_true same⟩
  have now : u.tasks.countP (fun p => p.1 = c && p.2.queries) =
      (s.cluster.remaining b).countP fun p => p.1 = c && p.2.queries := by
    rw [tasks, List.countP_append, fresh, Nat.add_zero]
  cases b with
  | resume i ctx =>
    obtain ⟨⟨e, t⟩, hi⟩ : ∃ p, s.cluster.tasks[i]? = some p := by
      cases hi : s.cluster.tasks[i]? with
      | none => simp [Cluster.step, hi] at taken
      | some p => exact ⟨p, rfl⟩
    have less := countP_eraseIdx (p := fun p : CoordinatorId × Task => p.1 = c && p.2.queries) hi
    simp only [live, queried, after, now, Cluster.remaining, hi, Option.any_some, ← less]
    omega
  | fail i error =>
    refine Nat.add_le_add_right (now.trans_le ?_) _
    exact (List.eraseIdx_sublist _ _).countP_le
  | crash d =>
    refine (down_live _ c d).trans (Nat.add_le_add_right (now.trans_le ?_) _)
    exact List.filter_sublist.countP_le
  | _ => exact Nat.add_le_add_right (Nat.le_of_eq now) _

/-- Each query that runs is one less under way, and none is added in silence. -/
theorem step_live {c : CoordinatorId} (silent : c ∉ s.connects a) (h : step s a = some s') :
    s'.live c + (queried c ⟨s, a, s'⟩).toNat ≤ s.live c := by
  cases a with
  | cluster b =>
    obtain ⟨u, _, taken, same⟩ := cluster_step h
    have bound : (s.after b u).live c + (queried c ⟨s, .cluster b, s'⟩).toNat ≤ s.live c :=
      after_live taken silent
    have less : s'.live c ≤ (s.after b u).live c := by
      rw [same]
      exact guarded_live _ _ _ c
    exact (Nat.add_le_add_right less _).trans bound
  | query d =>
    cases h
    have other : d ≠ c := fun same => silent (List.mem_singleton.mpr same.symm)
    refine (guarded_live s { s with queries := s.queries ++ [d] } (.query d) c).trans ?_
    simp [live, List.count_append, other]
  | answer i =>
    obtain ⟨hi, same⟩ := Option.ite_none_right_eq_some.mp h
    cases same
    have less := countP_eraseIdx (p := (· == c)) (List.getElem?_eq_getElem hi)
    simp only [live, queried, List.count, ← less, List.getElem?_eq_getElem hi, Option.some.injEq]
    cases same : (s.queries[i] == c) <;> simp_all [Nat.add_assoc]
  | chaos d fault params | elapse ms =>
    cases h
    exact Nat.le_refl _
  | beginTick | endTick =>
    obtain ⟨_, same⟩ := Option.ite_none_right_eq_some.mp h
    cases same
    exact Nat.le_refl _

/-- Somebody sets or lifts one of these faults of `c`, or its process ends. -/
def touches (c : CoordinatorId) (faults : List ChaosAction) (e : Event Chaotic ChaoticAction) : Bool :=
  e.before.stops c e.action || match e.action with
    | .chaos d (some (.str name)) _ => d = c && faults.any fun f => f.text = name
    | _ => false

theorem validFault_text {fault : Option Json} {action : ChaosAction}
    (h : validFault fault = some action) : fault = some (.str action.text) := by
  unfold validFault at h
  split at h
  next name =>
    have named := List.find?_some h
    rw [← of_decide_eq_true named]
  next => cases h

/-- What `POST /chaos` changes is in the fault that it names. -/
theorem postChaos_cases (now : Int) (fault : Option Json) (params : ChaosParams)
    (chaos : ChaosService) : (postChaos now fault params chaos).2 = chaos ∨
      ∃ action, fault = some (.str action.text) ∧
        (postChaos now fault params chaos).2 = chaos.apply now action params := by
  unfold postChaos
  split
  next none => exact .inl rfl
  next action found => exact .inr ⟨action, validFault_text found, rfl⟩

/-- What a step makes of the chaos service of one coordinator. -/
inductive ChaosStep (s : Chaotic) (c : CoordinatorId) : ChaoticAction → ChaosService → Prop where
  | same {a : ChaoticAction} : ChaosStep s c a (s.chaos c)
  | applied (action : ChaosAction) (params : ChaosParams) :
      ChaosStep s c (.chaos c (some (.str action.text)) params) ((s.chaos c).apply s.nowMs action params)
  | accepted {b : Action} (by_c : s.accepts b = some c) :
      ChaosStep s c (.cluster b) (s.chaos c).consumeDropAck.2
  | stopped {a : ChaoticAction} (ends : s.stops c a = true) : ChaosStep s c a {}

theorem guarded_chaos {c : CoordinatorId} (h : ChaosStep s c a (s'.chaos c)) :
    ChaosStep s c a ((s.guarded a s').chaos c) := by
  unfold guarded
  split
  next d found =>
    simp only [down]
    split
    next same => exact .stopped (by simp [stops, found, same])
    next => exact h
  next => exact h

theorem after_chaos (s : Chaotic) (b : Action) (u : Cluster) (c : CoordinatorId) :
    ChaosStep s c (.cluster b) ((s.after b u).chaos c) := by
  have kept : ChaosStep s c (.cluster b)
      (if s.accepts b = some c then (s.chaos c).consumeDropAck.2 else s.chaos c) := by
    split
    next by_c => exact .accepted by_c
    next => exact .same
  cases b with
  | crash d =>
    simp only [after, down]
    split
    next same => exact .stopped (by simp [stops, crashes, same])
    next => exact kept
  | _ => exact kept

theorem step_chaos (h : step s a = some s') (c : CoordinatorId) : ChaosStep s c a (s'.chaos c) := by
  cases a with
  | cluster b =>
    obtain ⟨u, _, _, rfl⟩ := cluster_step h
    exact guarded_chaos (after_chaos s b u c)
  | query d =>
    cases h
    exact guarded_chaos .same
  | chaos d fault params =>
    cases h
    simp only [setChaos]
    split
    next same =>
      subst same
      rcases postChaos_cases s.nowMs fault params (s.chaos c) with same | ⟨action, rfl, new⟩
      · rw [same]
        exact .same
      · rw [new]
        exact .applied action params
    next => exact .same
  | elapse ms =>
    cases h
    exact .same
  | answer | beginTick | endTick =>
    obtain ⟨_, same⟩ := Option.ite_none_right_eq_some.mp h
    cases same
    exact .same

/-- A deadline of the service stands while nobody sets it. -/
theorem deadlines_stand {c : CoordinatorId} (h : step s a = some s') :
    (touches c [.partitionDb, .restoreDb] ⟨s, a, s'⟩ = false →
      (s'.chaos c).dbPartitionedUntil = (s.chaos c).dbPartitionedUntil) ∧
    (touches c [.pauseDispatch, .resumeDispatch] ⟨s, a, s'⟩ = false →
      (s'.chaos c).dispatchPausedUntil = (s.chaos c).dispatchPausedUntil) ∧
    (touches c [.dropAcks] ⟨s, a, s'⟩ = false →
      (s'.chaos c).dropAcksRemaining = (s.chaos c).dropAcksRemaining ∨
        ∃ b, a = .cluster b ∧ s.accepts b = some c) := by
  have consumed : (s.chaos c).consumeDropAck.2.dbPartitionedUntil = (s.chaos c).dbPartitionedUntil ∧
      (s.chaos c).consumeDropAck.2.dispatchPausedUntil = (s.chaos c).dispatchPausedUntil := by
    unfold ChaosService.consumeDropAck
    split <;> exact ⟨rfl, rfl⟩
  have moved := step_chaos h c
  generalize s'.chaos c = chaos at moved
  cases moved with
  | same => exact ⟨fun _ => rfl, fun _ => rfl, fun _ => .inl rfl⟩
  | applied action params =>
    cases action with
    | partitionDb | restoreDb =>
      exact ⟨fun quiet => by simp [touches] at quiet, fun _ => rfl, fun _ => .inl rfl⟩
    | pauseDispatch | resumeDispatch =>
      exact ⟨fun _ => rfl, fun quiet => by simp [touches] at quiet, fun _ => .inl rfl⟩
    | dropAcks => exact ⟨fun _ => rfl, fun _ => rfl, fun quiet => by simp [touches] at quiet⟩
    | clockSkew => exact ⟨fun _ => rfl, fun _ => rfl, fun _ => .inl rfl⟩
  | accepted by_c => exact ⟨fun _ => consumed.1, fun _ => consumed.2, fun _ => .inr ⟨_, rfl, by_c⟩⟩
  | stopped ends =>
    refine ⟨?_, ?_, ?_⟩ <;>
    · intro quiet
      simp [touches, ends] at quiet

end Chaotic

end Dispatcher
