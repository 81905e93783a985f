import Dispatcher.Deployment.Ticks
import Dispatcher.Lib.Simulations

namespace Dispatcher
open Runs

namespace Deployment

variable {s s' : Deployment} {u v : Cluster} {c c' : CoordinatorId}

def input (e : Event Deployment Action) : List Dispatcher.Action :=
  match e.action with
  | .base a => a.input
  | _ => []

/-- The cluster has the database, the messages, the answers and the handlers of the
deployment, and each coordinator's registry in the order of its map. -/
structure Tracks (s : Deployment) (u : Cluster) : Prop where
  db : u.db = s.base.db
  wire : u.wire = s.base.wire
  answers : u.answers = s.base.answers
  sent : u.sent = s.base.sent.filter fun m => m.2.aboutJob
  tasks : ∀ c, (u.tasksOf c).Perm (s.base.tasksOf c ++ (s.processes c).awaits)
  roster : ∀ c, u.roster c = (s.processes c).hub.hub.roster
  /-- The handlers outside the hubs are those of routes and reapers. -/
  apart : ∀ p ∈ s.base.tasks, p.2.part = .apart
  heard : ∀ c, (s.processes c).hub.Heard s.base.wire

theorem heard_idle (db : Db) (wire : List (SocketId × WorkerToCoordMsg)) :
    (DispatchProcess.idle (.init db)).hub.Heard wire := by
  refine ⟨?_, ?_, ?_⟩
  · intro n state settled task hm
    cases hm
  · intro ws workerId limit returned hm
    cases hm
  · intro p hp
    cases hp

theorem tracks_init : Tracks init Cluster.init := by
  refine ⟨rfl, rfl, rfl, rfl, fun c => .refl _, fun c => rfl, fun p hp => ?_, fun c => heard_idle _ _⟩
  cases hp

theorem leave_self (s : Deployment) (c : CoordinatorId) (p : DispatchProcess) :
    (s.leave c p).processes c = p := by
  simp only [leave, Function.update_self]

theorem leave_other (s : Deployment) (p : DispatchProcess) (other : c' ≠ c) :
    (s.leave c p).processes c' = s.processes c' := by
  simp only [leave, Function.update_of_ne other]

theorem leave_tasksOf (s : Deployment) (c c' : CoordinatorId) (p : DispatchProcess) :
    (s.leave c p).base.tasksOf c' = s.base.tasksOf c' := rfl

/-- Seen from one coordinator, the deployment shows what the cluster has. -/
theorem Tracks.enter (h : Tracks s u) (c : CoordinatorId) :
    (s.enter c).Shown c (s.base.tasksOf c) u ∧ (s.enter c).hub.Heard u.wire := by
  refine ⟨⟨h.db, ?_, h.roster c⟩, ?_⟩
  · rw [List.append_assoc]
    exact h.tasks c
  · rw [h.wire]
    exact (h.heard c).fewer (fun _ hm => hm) fun _ hp => hp

/-- What a process leaves behind is what the cluster has come to. -/
theorem Tracks.leave (h : Tracks s u) {p : DispatchProcess}
    (followed : (s.enter c).Followed p c (s.base.tasksOf c) u v) (heard : p.hub.Heard u.wire) :
    Tracks (s.leave c p) v := by
  obtain ⟨more, written, sent⟩ := followed.wrote
  have wire := followed.beside.wire.trans h.wire
  constructor
  case db => exact HubProcess.Shown.db followed.shown
  case wire => exact wire
  case answers => exact followed.beside.answers.trans h.answers
  case sent =>
    have new : p.hub.sent.drop (s.processes c).hub.sent.length = more := by
      rw [written]
      exact List.drop_left
    rw [sent, h.sent, Deployment.leave, new, List.filter_append]
  case tasks =>
    intro c'
    rw [leave_tasksOf]
    by_cases here : c' = c
    · subst here
      rw [leave_self]
      exact followed.shown.tasks
    · rw [leave_other s p here]
      exact (followed.beside.tasks c' here).trans (h.tasks c')
  case roster =>
    intro c'
    by_cases here : c' = c
    · subst here
      rw [leave_self]
      exact HubProcess.Shown.roster followed.shown
    · rw [leave_other s p here]
      exact (followed.beside.roster c' here).trans (h.roster c')
  case apart => exact h.apart
  case heard =>
    intro c'
    by_cases here : c' = c
    · subst here
      rw [leave_self]
      exact h.wire ▸ heard
    · rw [leave_other s p here]
      exact h.heard c'

theorem Tracks.process (h : Tracks s u) {a : DispatchAction} {p : DispatchProcess}
    (taken : (s.enter c).step a = some p)
    (read : ∀ ws msg ctx, a = .hub (.message ws msg ctx) → (ws, msg) ∈ s.base.wire)
    (here : a = a.at_ c) (alone : ∀ db, a ≠ .hub (.others db)) :
    ∃ es v, Run Cluster.step u es v ∧ visible Cluster.input es = [] ∧ Tracks (s.leave c p) v := by
  obtain ⟨shown, heard⟩ := h.enter c
  obtain ⟨⟨v, followed⟩, heard⟩ := shown.step heard taken (h.wire ▸ read) here alone
  obtain ⟨es, run, quiet⟩ := followed.beside.quiet
  exact ⟨es, v, run, quiet, h.leave followed heard⟩

theorem Tracks.tick (h : Tracks s u) (now : (s.processes c).point = .ended)
    (isDispatchPaused isDbPartitioned : Bool) : ∃ es v, Run Cluster.step u es v ∧
      visible Cluster.input es = [] ∧
        Tracks (s.leave c (.tick isDispatchPaused isDbPartitioned (s.enter c).hub)) v := by
  obtain ⟨shown, heard⟩ := h.enter c
  obtain ⟨⟨v, followed⟩, hub⟩ := shown.ticks now isDispatchPaused isDbPartitioned
  obtain ⟨es, run, quiet⟩ := followed.beside.quiet
  refine ⟨es, v, run, quiet, h.leave followed ?_⟩
  rw [hub]
  exact heard

theorem tasksOf_crash (s : Cluster) (c c' : CoordinatorId) :
    Cluster.tasksOf { s with
      tasks := s.tasks.filter fun p => p.1 ≠ c
      registry := s.registry.filter fun r => r.coordinatorId ≠ c } c' =
        if c' = c then [] else s.tasksOf c' := by
  simp only [Cluster.tasksOf, List.filter_filter]
  split
  case isTrue here =>
    subst here
    rw [List.map_eq_nil_iff, List.filter_eq_nil_iff]
    intro p _
    simp
  case isFalse other =>
    congr 1
    apply List.filter_congr
    intro p _
    by_cases here : p.1 = c' <;> simp [here, other]

/-- A crash takes the process and all handlers of its coordinator away. -/
theorem Tracks.crash (h : Tracks s u) (c : CoordinatorId) : ∃ v, Cluster.step u (.crash c) = some v ∧
    Tracks { s with
      base := { s.base with
        tasks := s.base.tasks.filter fun p => p.1 ≠ c
        registry := s.base.registry.filter fun r => r.coordinatorId ≠ c }
      processes := Function.update s.processes c (.idle (.init s.base.db)) } v := by
  refine ⟨_, rfl, h.db, h.wire, h.answers, h.sent, ?_, ?_, ?_, ?_⟩
  · intro c'
    rw [tasksOf_crash, tasksOf_crash]
    by_cases here : c' = c
    · subst here
      simp only [↓reduceIte, Function.update_self]
      exact .refl _
    · simp only [here, ↓reduceIte, Function.update_of_ne here]
      exact h.tasks c'
  · intro c'
    by_cases here : c' = c
    · subst here
      simp only [Function.update_self]
      rw [Cluster.roster, Cluster.rosterOf, List.filter_filter, List.filter_eq_nil_iff.mpr]
      · rfl
      · intro r _
        simp
    · simp only [Function.update_of_ne here]
      rw [← h.roster c']
      exact Cluster.rosterOf_kept fun r same => decide_eq_true (same.trans_ne here)
  · exact fun p hp => h.apart p (List.mem_of_mem_filter hp)
  · intro c'
    by_cases here : c' = c
    · subst here
      simp only [Function.update_self]
      exact heard_idle _ _
    · simp only [Function.update_of_ne here]
      exact h.heard c'

theorem Tracks.spawn (h : Tracks s u) (c : CoordinatorId) {next : List Task}
    (part : ∀ t ∈ next, t.part = .apart) :
    Tracks { s with base := s.base.spawn c next } (u.spawn c next) := by
  refine ⟨h.db, h.wire, h.answers, h.sent, ?_, h.roster, ?_, h.heard⟩
  · intro c'
    by_cases here : c' = c
    · subst here
      rw [Cluster.spawn_tasksOf, Cluster.spawn_tasksOf, List.append_assoc]
      refine ((h.tasks c').append_right next).trans ?_
      rw [List.append_assoc]
      exact List.perm_append_comm.append_left _
    · rw [Cluster.spawn_tasksOf_ne _ here, Cluster.spawn_tasksOf_ne _ here]
      exact h.tasks c'
  · intro p hp
    rcases Cluster.spawn_tasks hp with hp | hp
    · exact h.apart p hp
    · exact part _ hp

/-- A handler of a route or a reaper goes on. -/
theorem Tracks.finish (h : Tracks s u) {i : Nat} {t : Task} (hi : s.base.tasks[i]? = some (c, t))
    {o : Outcome} (registered : o.registered = none) (sent : o.sent = [])
    (next : ∀ t' ∈ o.next, t'.part = t.part)
    (goes : ∀ i : Nat, u.tasks[i]? = some (c, t) → ∃ a, a.input = [] ∧
      Cluster.step u a = some (u.finish i c o)) :
    ∃ a v, a.input = [] ∧ Cluster.step u a = some v ∧ Tracks { s with base := s.base.finish i c o } v := by
  have part := h.apart _ (List.mem_of_getElem? hi)
  have here : (c, t) ∈ u.tasks := by
    rw [← Cluster.mem_tasksOf, (h.tasks c).mem_iff]
    exact List.mem_append_left _ (Cluster.mem_tasksOf.mpr (List.mem_of_getElem? hi))
  obtain ⟨k, hk⟩ := List.getElem?_of_mem here
  obtain ⟨a, none, taken⟩ := goes k hk
  refine ⟨a, _, none, taken, rfl, h.wire, ?_, ?_, ?_, ?_, ?_, h.heard⟩
  · simp only [Cluster.finish, h.answers]
  · simp only [Cluster.finish, sent, List.append_nil, h.sent]
  · intro c'
    by_cases same : c' = c
    · subst same
      have after := (Cluster.finish_tasksOf hk o).trans ((h.tasks c').append_right o.next)
      have before := (Cluster.finish_tasksOf hi o).append_right (s.processes c').awaits
      rw [List.append_assoc] at after
      have swapped : (s.base.tasksOf c' ++ ((s.processes c').awaits ++ o.next)).Perm
          (s.base.tasksOf c' ++ (o.next ++ (s.processes c').awaits)) := List.perm_append_comm.append_left _
      rw [← List.append_assoc (s.base.tasksOf c') o.next] at swapped
      exact (after.trans (swapped.trans before.symm)).cons_inv
    · exact (Cluster.finish_tasksOf_ne hk o same).trans
        ((h.tasks c').trans ((Cluster.finish_tasksOf_ne hi o same).symm.append_right _))
  · intro c'
    simp only [Cluster.finish, Cluster.roster, registered]
    exact h.roster c'
  · intro p hp
    rcases Cluster.finish_tasks hp with hp | hp
    · exact h.apart p hp
    · exact (next _ hp).trans part

/-- A step of a route or a reaper is the same step of the cluster. -/
theorem Tracks.base (h : Tracks s u) {a : Dispatcher.Action} {base : Cluster} (apart : a.apart = true)
    (taken : Cluster.step s.base a = some base) : ∃ b v, b.input = a.input ∧
      Cluster.step u b = some v ∧ Tracks { s with base } v := by
  cases Cluster.step_moves taken with
  | @submitted c idempotencyKey payload key payload' valid =>
    refine ⟨.post c idempotencyKey payload, u.spawn c [.submitLookup key payload'], rfl, ?_,
      h.spawn c fun t ht => ?_⟩
    · simp only [Cluster.step, valid]
    · cases List.mem_singleton.mp ht
      rfl
  | @refused c idempotencyKey payload response invalid =>
    refine ⟨.post c idempotencyKey payload,
      { u with answers := u.answers ++ [⟨.post idempotencyKey payload, response⟩] }, rfl, ?_,
      h.db, h.wire, ?_, h.sent, h.tasks, h.roster, h.apart, h.heard⟩
    · simp only [Cluster.step, invalid]
    · simp only [h.answers]
  | @deleted c jobId =>
    refine ⟨.delete c jobId, u.spawn c [.cancelLookup jobId], rfl, rfl, h.spawn c fun t ht => ?_⟩
    cases List.mem_singleton.mp ht
    rfl
  | @reaped c ctx =>
    refine ⟨.reaperTick c ctx, u.spawn c [.reaperTx (ctx.nowMs + ctx.skewMs)], rfl, rfl,
      h.spawn c fun t ht => ?_⟩
    cases List.mem_singleton.mp ht
    rfl
  | @written ws msg =>
    refine ⟨.workerSend ws msg, { u with wire := u.wire ++ [(ws, msg)] }, rfl, rfl, h.db, ?_, h.answers,
      h.sent, h.tasks, h.roster, h.apart,
      fun c => (h.heard c).mono fun m hm => List.mem_append_left _ hm⟩
    simp only [h.wire]
  | @resumed i ctx c t hi =>
    have part : t.part = .apart := h.apart _ (List.mem_of_getElem? hi)
    refine h.finish hi (resume_registered (by rw [part]; decide)) (resume_sent_apart part)
      (fun t' ht => resume_part ht) fun k hk => ⟨.resume k ctx, rfl, ?_⟩
    simp only [Cluster.step, hk, h.db]
    rw [resume_wsOf (s.base.wsOf c) (by rw [part]; decide)]
  | @failed i error c t hi =>
    have part : t.part = .apart := h.apart _ (List.mem_of_getElem? hi)
    refine h.finish hi (fail_registered (by rw [part]; decide)) (fail_sent t _ _)
      (fun t' ht => fail_part ht) fun k hk => ⟨.fail k error, rfl, ?_⟩
    simp only [Cluster.step, hk, h.db]
  | @skipped n =>
    refine ⟨.skipTokens n, { u with db := { u.db with fencingSeq := u.db.fencingSeq + n } }, rfl, rfl, ?_,
      h.wire, h.answers, h.sent, h.tasks, h.roster, h.apart, h.heard⟩
    simp only [h.db]
  | received | left | dispatched | crashed => cases apart

theorem at_at (a : DispatchAction) (c : CoordinatorId) : (a.at_ c).at_ c = a.at_ c := by
  cases a with
  | hub a => cases a <;> rfl
  | _ => rfl

theorem at_message {a : DispatchAction} {ws : SocketId} {msg : WorkerToCoordMsg} {ctx : Ctx}
    (h : a.at_ c = .hub (.message ws msg ctx)) : ∃ ctx, a = .hub (.message ws msg ctx) := by
  cases a with
  | hub a =>
    cases a <;> cases h
    exact ⟨_, rfl⟩
  | _ => cases h

theorem at_others {a : DispatchAction} {db : Db} (h : a.at_ c = .hub (.others db)) :
    a = .hub (.others db) := by
  cases a with
  | hub a =>
    cases a <;> cases h
    rfl
  | _ => cases h

/-- A deployment does nothing that the cluster cannot do with the same inputs. -/
theorem tracks_step : Simulates step Cluster.step input Cluster.input Tracks := by
  intro s a s' u h taken
  cases a with
  | base a =>
    obtain ⟨apart, taken⟩ := Option.ite_none_right_eq_some.mp taken
    obtain ⟨base, moved, rfl⟩ := Option.map_eq_some_iff.mp taken
    obtain ⟨b, v, same, taken, tracks⟩ := h.base apart moved
    refine ⟨_, v, .one taken, ?_, tracks⟩
    rw [visible_singleton]
    exact same
  | receive c k ctx =>
    obtain ⟨⟨ws, msg⟩, hk, taken⟩ := Option.bind_eq_some_iff.mp taken
    obtain ⟨p, moved, rfl⟩ := Option.map_eq_some_iff.mp taken
    refine h.process moved ?_ rfl fun db same => by cases same
    intro ws' msg' ctx' same
    cases same
    exact List.mem_of_getElem? hk
  | process c a =>
    obtain ⟨own, taken⟩ := Option.ite_none_right_eq_some.mp taken
    obtain ⟨p, moved, rfl⟩ := Option.map_eq_some_iff.mp taken
    refine h.process moved (fun ws msg ctx same => ?_) (at_at a c).symm fun db same => ?_
    · obtain ⟨ctx, rfl⟩ := at_message same
      cases own
    · cases at_others same
      cases own
  | tick c isDispatchPaused isDbPartitioned =>
    simp only [step] at taken
    split at taken
    case h_1 now =>
      cases taken
      exact h.tick now _ _
    · cases taken
  | crash c =>
    cases taken
    obtain ⟨v, taken, tracks⟩ := h.crash c
    exact ⟨_, v, .one taken, rfl, tracks⟩

/-- A message that was sent stays sent. -/
theorem step_sent {a : Action} (h : step s a = some s') : s.base.sent <+: s'.base.sent := by
  cases a with
  | base a =>
    obtain ⟨apart, taken⟩ := Option.ite_none_right_eq_some.mp h
    obtain ⟨base, moved, rfl⟩ := Option.map_eq_some_iff.mp taken
    cases Cluster.step_moves moved with
    | resumed | failed => exact List.prefix_append _ _
    | _ => exact List.prefix_rfl
  | receive c k ctx =>
    obtain ⟨_, _, taken⟩ := Option.bind_eq_some_iff.mp h
    obtain ⟨p, _, rfl⟩ := Option.map_eq_some_iff.mp taken
    exact List.prefix_append _ _
  | process c a =>
    obtain ⟨_, taken⟩ := Option.ite_none_right_eq_some.mp h
    obtain ⟨p, _, rfl⟩ := Option.map_eq_some_iff.mp taken
    exact List.prefix_append _ _
  | tick c isDispatchPaused isDbPartitioned =>
    simp only [step] at h
    split at h
    · cases h
      exact List.prefix_append _ _
    · cases h
  | crash c =>
    cases h
    exact List.prefix_rfl

/-- Only the workers and the clients write to the wire. -/
theorem step_wire {a : Action} (h : step s a = some s')
    (other : ∀ ws msg, a ≠ .base (.workerSend ws msg)) : s'.base.wire = s.base.wire := by
  cases a with
  | base a =>
    obtain ⟨apart, taken⟩ := Option.ite_none_right_eq_some.mp h
    obtain ⟨base, moved, rfl⟩ := Option.map_eq_some_iff.mp taken
    cases Cluster.step_moves moved with
    | written => exact absurd rfl (other _ _)
    | _ => rfl
  | receive c k ctx =>
    obtain ⟨_, _, taken⟩ := Option.bind_eq_some_iff.mp h
    obtain ⟨p, _, rfl⟩ := Option.map_eq_some_iff.mp taken
    rfl
  | process c a =>
    obtain ⟨_, taken⟩ := Option.ite_none_right_eq_some.mp h
    obtain ⟨p, _, rfl⟩ := Option.map_eq_some_iff.mp taken
    rfl
  | tick c isDispatchPaused isDbPartitioned =>
    simp only [step] at h
    split at h
    · cases h
      rfl
    · cases h
  | crash c =>
    cases h
    rfl

end Deployment

end Dispatcher
