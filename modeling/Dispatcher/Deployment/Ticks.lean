import Dispatcher.Deployment.Processes

namespace Dispatcher
open Runs

namespace DispatchProcess

variable {s s' : DispatchProcess} {c : CoordinatorId} {rest : List Task} {u v : Cluster}
  {workerId : WorkerId} {job : Dispatched}

/-- The awaits of the tick and of the handlers of the hub. -/
def awaits (s : DispatchProcess) : List Task :=
  s.point.await.toList ++ s.hub.handlers.filterMap Handler.await

/-- Coordinator `c` of the cluster is at what the process is at, and at the rest. -/
def Shown (s : DispatchProcess) (c : CoordinatorId) (rest : List Task) (u : Cluster) : Prop :=
  s.hub.Shown c (rest ++ s.point.await.toList) u

/-- The cluster follows from one state of the process to another. -/
structure Followed (s s' : DispatchProcess) (c : CoordinatorId) (rest : List Task) (u v : Cluster) :
    Prop where
  beside : Cluster.Beside c u v
  shown : s'.Shown c rest v
  wrote : Wrote s.hub.sent s'.hub.sent u.sent v.sent

theorem Shown.tasks (h : s.Shown c rest u) : (u.tasksOf c).Perm (rest ++ s.awaits) := by
  rw [awaits, ← List.append_assoc]
  exact HubProcess.Shown.tasks h

/-- The await of the tick as one of the tasks of its coordinator. -/
theorem Shown.split {t : Task} (h : s.Shown c rest u) (now : s.point.await = some t) :
    (u.tasksOf c).Perm (t :: (rest ++ s.hub.handlers.filterMap Handler.await)) := by
  refine h.tasks.trans ?_
  rw [awaits, now, Option.toList_some, List.singleton_append]
  exact List.perm_middle

/-- The tick goes on where no query is under way. -/
theorem Shown.stays (h : s.Shown c rest u) (hub : s'.hub = s.hub) (point : s'.point.await = s.point.await) :
    Followed s s' c rest u u := by
  refine ⟨.refl, ?_, ?_⟩
  · rw [Shown, hub, point]
    exact h
  · rw [hub]
    exact .refl

/-- The tick goes on to its next query, or none. -/
theorem Shown.goes (h : s.Shown c rest u) (hub : s'.hub = s.hub) (none : s.point.await = none)
    (turns : ∀ t, s'.point.await = some t → ∃ workerId, t = .dispatchTx workerId) :
    ∃ v, Followed s s' c rest u v := by
  cases next : s'.point.await with
  | none => exact ⟨u, h.stays hub (next.trans none.symm)⟩
  | some t =>
    obtain ⟨workerId, rfl⟩ := turns t next
    have taken : Cluster.step u (.dispatchTick c workerId) = some (u.spawn c [.dispatchTx workerId]) := rfl
    refine ⟨_, Cluster.spawn_beside taken rfl, ⟨?_, ?_, ?_⟩, ?_⟩
    · rw [hub]
      exact h.db
    · rw [Cluster.spawn_tasksOf, next, hub, Option.toList_some]
      have tasks := HubProcess.Shown.tasks h
      rw [none, Option.toList_none, List.append_nil] at tasks
      refine (tasks.append_right _).trans ?_
      rw [List.append_assoc, List.append_assoc]
      exact List.perm_append_comm.append_left rest
    · rw [hub]
      exact h.roster
    · rw [hub]
      exact .refl

/-- The query of the tick is over, or its message is sent. -/
theorem Shown.ends (h : s.Shown c rest u) {t : Task} (now : s.point.await = some t) {o : Outcome}
    (goes : ∀ others, (u.tasksOf c).Perm (t :: others) → ∃ v, Cluster.Beside c u v ∧
      v.db = o.db ∧ v.sent = u.sent ++ o.sent ∧ (v.tasksOf c).Perm (others ++ o.next) ∧
        v.roster c = u.roster c)
    (db : s'.hub.db = o.db) (next : s'.point.await.toList = o.next)
    (handlers : s'.hub.handlers = s.hub.handlers) (roster : s'.hub.hub.roster = s.hub.hub.roster)
    (wrote : Wrote s.hub.sent s'.hub.sent u.sent (u.sent ++ o.sent)) :
    ∃ v, Followed s s' c rest u v := by
  obtain ⟨v, beside, vdb, vsent, vtasks, vroster⟩ := goes _ (h.split now)
  refine ⟨v, beside, ⟨vdb.trans db.symm, ?_, ?_⟩, vsent ▸ wrote⟩
  · rw [next, handlers, List.append_assoc]
    refine vtasks.trans ?_
    rw [List.append_assoc]
    exact List.perm_append_comm.append_left rest
  · exact (vroster.trans h.roster).trans roster.symm

/-- The transaction of the tick, as a task of the cluster. -/
theorem Shown.commits (h : s.Shown c rest u) (now : s.point = .transaction workerId) (ctx : Ctx)
    (here : ctx.coordinatorId = c) (taken : s.step (.commit ctx) = some s') :
    ∃ v, Followed s s' c rest u v := by
  have await : s.point.await = some (.dispatchTx workerId) := by rw [now]; rfl
  have goes : ∀ others, (u.tasksOf c).Perm (.dispatchTx workerId :: others) → ∃ v,
      Cluster.Beside c u v ∧
        let o := (Task.dispatchTx workerId).resume ctx (u.wsOf c) s.hub.db
        v.db = o.db ∧ v.sent = u.sent ++ o.sent ∧ (v.tasksOf c).Perm (others ++ o.next) ∧
          v.roster c = u.roster c := by
    intro others split
    have goes := Cluster.task_resumes split ctx (.inr rfl)
    rw [HubProcess.Shown.db h] at goes
    cases here
    exact goes
  have silent : ∀ {sent : List (SocketId × CoordToWorkerMsg)}, Wrote sent sent u.sent (u.sent ++ []) :=
    ⟨[], (List.append_nil _).symm, rfl⟩
  simp only [step, now] at taken
  simp only [Task.resume] at goes
  cases found : tryDispatchOneTx ctx workerId s.hub.db with
  | error e =>
    rw [found] at taken goes
    cases taken
    exact h.ends await goes rfl rfl rfl rfl silent
  | ok p =>
    obtain ⟨dispatched, db⟩ := p
    rw [found] at taken goes
    cases dispatched with
    | none =>
      cases taken
      exact h.ends await goes rfl rfl rfl rfl silent
    | some job =>
      cases taken
      exact h.ends await goes rfl rfl rfl rfl silent

theorem Shown.fails (h : s.Shown c rest u) (now : s.point = .transaction workerId) :
    ∃ v, Followed s { s with point := .ended } c rest u v := by
  have await : s.point.await = some (.dispatchTx workerId) := by rw [now]; rfl
  refine h.ends await (o := { db := s.hub.db }) (fun others split => ?_) rfl rfl rfl rfl
    ⟨[], (List.append_nil _).symm, rfl⟩
  have goes := Cluster.task_fails split "" (.inr rfl)
  rw [HubProcess.Shown.db h] at goes
  exact goes

/-- `sendJob` writes to the socket that the cluster finds for the worker, where it is OPEN. -/
theorem Shown.sends (h : s.Shown c rest u) (now : s.point = .committed workerId (some job)) :
    ∃ v, Followed s (s.send workerId job) c rest u v := by
  have await : s.point.await = some (.dispatchSend workerId job) := by rw [now]; rfl
  let ctx : Ctx := { Ctx.quiet c 0 with wsOpen := (s.hub.hub.openState s.hub.isOpen workerId).isSome }
  have socket : u.wsOf c workerId = s.hub.hub.socketOf workerId := by
    rw [Cluster.wsOf_roster, HubProcess.Shown.roster h, Hub.find_roster]
  have wsOpen : ctx.wsOpen = (s.hub.hub.openState s.hub.isOpen workerId).isSome := rfl
  have outcome : (Task.dispatchSend workerId job).resume { ctx with coordinatorId := c } (u.wsOf c)
      s.hub.db = { db := s.hub.db, sent := (s.hub.hub.sendJob s.hub.isOpen workerId
        ⟨job.jobId, job.token, job.payload, DISPATCH_LEASE_TTL_MS⟩).2.2 } := by
    simp only [Task.resume, socket, Hub.sendJob, sendMsg]
    cases found : s.hub.hub.openState s.hub.isOpen workerId with
    | none =>
      rw [found] at wsOpen
      simp only [wsOpen]
      split <;> rfl
    | some p =>
      obtain ⟨r, state⟩ := p
      obtain ⟨hr, here, _⟩ := Hub.openState_eq_some.mp found
      rw [found] at wsOpen
      simp only [wsOpen, Hub.socketOf, hr, Option.bind_some, here, Option.map_some]
      rfl
  refine h.ends await (o := { db := s.hub.db, sent := (s.hub.hub.sendJob s.hub.isOpen workerId
      ⟨job.jobId, job.token, job.payload, DISPATCH_LEASE_TTL_MS⟩).2.2 })
    (fun others split => ?_) rfl rfl rfl (HubProcess.sendJob_roster _ _ _ _) ?_
  · have goes := Cluster.task_resumes split ctx (.inr rfl)
    rw [HubProcess.Shown.db h] at goes
    rw [outcome] at goes
    exact goes
  · refine ⟨_, rfl, ?_⟩
    unfold Hub.sendJob
    split <;> rfl

/-- The cluster follows every step of the hub. -/
theorem Shown.hub_step (h : s.Shown c rest u) (heard : s.hub.Heard u.wire) {a : HubAction}
    (taken : s.step (.hub a) = some s')
    (read : ∀ ws msg ctx, a = .message ws msg ctx → (ws, msg) ∈ u.wire)
    (here : ∀ i ctx, a = .resume i ctx → ctx.coordinatorId = c) (alone : ∀ db, a ≠ .others db) :
    (∃ v, Followed s s' c rest u v) ∧ s'.hub.Heard u.wire := by
  have handler : ∀ workerId msg, a ≠ .sendJob workerId msg := by
    rintro workerId msg rfl
    simp [DispatchProcess.step] at taken
  have moved : ∃ hub, s.hub.step a = some hub ∧ s' = { s with hub } := by
    cases a with
    | sendJob => exact absurd rfl (handler _ _)
    | _ =>
      simp only [DispatchProcess.step] at taken
      obtain ⟨hub, moved, rfl⟩ := Option.map_eq_some_iff.mp taken
      exact ⟨hub, moved, rfl⟩
  obtain ⟨hub, moved, rfl⟩ := moved
  have moves := HubProcess.step_moves moved
  obtain ⟨v, followed⟩ := HubProcess.Shown.step h heard moves read here alone handler
  exact ⟨⟨v, followed.beside, followed.shown, followed.wrote⟩, heard.step moves read⟩

/-- The loop itself touches neither the hub nor the database. -/
theorem advance_hub (s : DispatchProcess) : s.advance.hub = s.hub := by
  unfold advance
  split <;> rfl

theorem advance_await (s : DispatchProcess) :
    ∀ t, s.advance.point.await = some t → ∃ workerId, t = .dispatchTx workerId := by
  intro t ht
  unfold advance at ht
  split at ht
  · cases ht
    exact ⟨_, rfl⟩
  · cases ht

/-- Each step of a process is a run of the cluster at its coordinator. -/
theorem Shown.step (h : s.Shown c rest u) (heard : s.hub.Heard u.wire) {a : DispatchAction}
    (taken : s.step a = some s')
    (read : ∀ ws msg ctx, a = .hub (.message ws msg ctx) → (ws, msg) ∈ u.wire)
    (here : a = a.at_ c) (alone : ∀ db, a ≠ .hub (.others db)) :
    (∃ v, Followed s s' c rest u v) ∧ s'.hub.Heard u.wire := by
  cases a with
  | hub a =>
    refine h.hub_step heard taken (fun ws msg ctx same => read ws msg ctx (same ▸ rfl)) ?_
      fun db same => alone db (same ▸ rfl)
    rintro i ctx rfl
    exact congrArg Ctx.coordinatorId (HubAction.resume.inj (DispatchAction.hub.inj here)).2
  | commit ctx =>
    have located : ctx.coordinatorId = c := congrArg Ctx.coordinatorId (DispatchAction.commit.inj here)
    cases now : s.point with
    | transaction workerId =>
      refine ⟨h.commits now ctx located taken, ?_⟩
      simp only [DispatchProcess.step, now] at taken
      split at taken <;> cases taken <;> exact heard.fewer (fun _ hm => hm) fun _ hp => hp
    | committed | returned | ended => simp [DispatchProcess.step, now] at taken
  | fail =>
    cases now : s.point with
    | transaction workerId =>
      simp only [DispatchProcess.step, now] at taken
      cases taken
      exact ⟨h.fails now, heard⟩
    | committed | returned | ended => simp [DispatchProcess.step, now] at taken
  | resume =>
    cases now : s.point with
    | committed workerId dispatched =>
      cases dispatched with
      | none =>
        simp only [DispatchProcess.step, now] at taken
        cases taken
        exact ⟨⟨u, h.stays rfl (by rw [now]; rfl)⟩, heard⟩
      | some job =>
        simp only [DispatchProcess.step, now] at taken
        cases taken
        refine ⟨h.sends now, heard.fewer (fun _ hm => hm) fun p hp => ?_⟩
        rwa [← HubProcess.sendJob_roster]
    | transaction | returned | ended => simp [DispatchProcess.step, now] at taken
  | turn =>
    cases now : s.point with
    | returned dispatched =>
      have none : s.point.await = Option.none := by rw [now]; rfl
      cases dispatched with
      | false =>
        simp only [DispatchProcess.step, now] at taken
        cases taken
        exact ⟨⟨u, h.stays rfl none.symm⟩, heard⟩
      | true =>
        simp only [DispatchProcess.step, now] at taken
        cases taken
        refine ⟨h.goes (advance_hub _) none (advance_await _), ?_⟩
        rw [advance_hub]
        exact heard
    | transaction | committed | ended => simp [DispatchProcess.step, now] at taken

/-- The tick up to its first query. -/
theorem Shown.ticks (h : s.Shown c rest u) (now : s.point = .ended)
    (isDispatchPaused isDbPartitioned : Bool) :
    (∃ v, Followed s (.tick isDispatchPaused isDbPartitioned s.hub) c rest u v) ∧
      (tick isDispatchPaused isDbPartitioned s.hub).hub = s.hub := by
  have none : s.point.await = Option.none := by rw [now]; rfl
  unfold tick
  split
  · exact ⟨⟨u, h.stays rfl none.symm⟩, rfl⟩
  · exact ⟨h.goes (advance_hub _) none (advance_await _), advance_hub _⟩

end DispatchProcess

end Dispatcher
