import Dispatcher.Model.Fleet
import Dispatcher.Proofs.CommitSafety

namespace Dispatcher
open Tables Runs

def Db.Decided (db : Db) (j : JobId) : Prop :=
  db.acceptedCommits j ≠ [] ∧ (db.resultOf j).isSome

theorem decided_iff {n : Nat} {db : Db} {j : JobId} (h : Consistent n (db.view j)) :
    db.Decided j ↔ (db.view j).commits ≠ [] := by
  unfold Db.Decided
  rw [acceptedCommits_view h]
  exact and_iff_left_of_imp h.result.mpr

theorem alreadyDone_status {db : Db} {j : JobId} (h : alreadyDone db j = true) :
    db.statusOf j = some .succeeded := by
  obtain ⟨r, hm, hr⟩ := List.any_eq_true.mp h
  simp only [Bool.and_eq_true, decide_eq_true_eq] at hr
  obtain ⟨rfl, hs⟩ := hr
  simp [Db.statusOf, Table.lookup_of_mem hm, hs]

/-- Whichever of its three places an ack is sent from, a commit is behind it. -/
theorem resume_acks {n : Nat} {t : Task} {ctx : Ctx} {wsOf : WorkerId → Option SocketId} {db : Db}
    {ws : SocketId} {j : JobId} (hc : Consistent n (db.view j))
    (hm : (ws, .jobAck j) ∈ (t.resume ctx wsOf db).sent) :
    ((t.resume ctx wsOf db).db.view j).commits ≠ [] := by
  cases t with
  | resultTx ws' workerId msg =>
    by_cases committed : db.holds msg.jobId workerId msg.token = true ∧
        db.statusOf msg.jobId = some .dispatched
    · obtain ⟨hh, hs⟩ := committed
      have named : j = msg.jobId := by
        simp only [Task.resume, onResultTx_accepted hh hs, sendMsg] at hm
        repeat' split at hm
        all_goals cases hm <;> first | rfl | contradiction
      rw [resume_view, Task.event, if_pos named, resultEvent, if_pos hh, if_pos hs]
      simp [JobView.after, JobEvent.apply]
    · have rejected : (onResultTx ctx workerId msg db).1 = false := by
        cases hh : db.holds msg.jobId workerId msg.token with
        | false => rw [onResultTx_stale hh]
        | true => rw [onResultTx_discarded hh fun hs => committed ⟨hh, hs⟩]
      simp only [Task.resume, rejected] at hm
      cases hm
  | resultReAck ws' msg =>
    simp only [Task.resume, sendMsg] at hm
    split at hm
    · rename_i done
      split at hm
      · cases List.mem_singleton.mp hm
        rw [resume_view]
        exact hc.succeeded (alreadyDone_status done)
      · cases hm
    · cases hm
  | dispatchSend | resultLookup | dispatchTx | submitLookup | submitTx | cancelLookup =>
    simp only [Task.resume, sendMsg] at hm
    repeat' split at hm
    all_goals first
      | cases hm; done
      | cases List.mem_singleton.mp hm
  | helloUpsert | failedTx | heartbeatUpdate | reaperTx | submitWinner | cancelTx => cases hm

namespace Cluster

/-- Every ack ever sent is for a job with a commit. -/
def Acked (s : Cluster) : Prop :=
  ∀ ws j, (ws, .jobAck j) ∈ s.sent → (s.db.view j).commits ≠ []

/-- A commit stays, whatever happens later. -/
theorem commits_later {s s' : Cluster} {j : JobId} (h : Reachable step init s)
    (later : Reachable step s s') (hc : (s.db.view j).commits ≠ []) :
    (s'.db.view j).commits ≠ [] := by
  obtain ⟨c, hm⟩ := List.exists_mem_of_ne_nil _ hc
  have accepted : ((c.workerId, c.fence), (s.db.view j).result) ∈ (s.db.view j).ledger.accepted :=
    List.mem_map_of_mem (f := fun c : CommitAttempt => _) hm
  have kept := accepted_later h later accepted
  intro none
  simp [JobView.ledger, none] at kept

/-- An ack is sent for a commit: the one that the handler has just made, or the one that
it has found. -/
theorem acked_step {s s' : Cluster} {a : Action} (known : Reachable step init s) (hs : s.Acked)
    (h : step s a = some s') : s'.Acked := by
  intro ws j hm
  rcases step_sent_resumed h hm with hm | ⟨ctx, t, wsOf, _, hd, hm⟩
  · exact commits_later known (Reachable.refl.snoc h) (hs ws j hm)
  · rw [hd]
    exact resume_acks (consistent_reachable known j) hm

theorem acked_reachable {s : Cluster} (h : Reachable step init s) : s.Acked := by
  refine h.invariant_with (fun _ known => known) (fun ws j hm => by cases hm) ?_
  intro s a s' known hs hstep
  exact acked_step known hs hstep

theorem decided_later {s s' : Cluster} {j : JobId} (h : Reachable step init s)
    (later : Reachable step s s') (hd : s.db.Decided j) : s'.db.Decided j :=
  (decided_iff (consistent_reachable (h.trans later) j)).mpr
    (commits_later h later ((decided_iff (consistent_reachable h j)).mp hd))

end Cluster

namespace WorkerService

theorem remove_stored (w : WorkerService) {jobId j : JobId} (h : j ≠ jobId) :
    (w.remove jobId).stored j = w.stored j := by
  unfold stored remove
  rw [Table.lookup_delete]
  cases hl : w.inFlight.lookup j with
  | none => rfl
  | some job =>
    have hj : job.jobId = j := Table.lookup_key hl
    have kept : (some job).filter (fun job => !decide (job.jobId = jobId)) = some job := by
      simp [Option.filter_some, hj, h]
    rw [kept]

theorem modify_stored (w : WorkerService) (jobId : JobId) {f : InFlightJob → InFlightJob}
    (hf : ∀ job, (f job).jobId = job.jobId) (hr : ∀ job, (f job).result = job.result) (j : JobId) :
    (w.modify jobId f hf).stored j = w.stored j := by
  unfold stored modify
  rw [Table.lookup_update]
  cases w.inFlight.lookup j with
  | none => rfl
  | some job =>
    simp only [Option.map_some, Option.bind_some]
    split
    · exact hr job
    · rfl

theorem insert_stored (w : WorkerService) (job : InFlightJob) (j : JobId)
    (absent : w.inFlight.lookup job.jobId = none) (hr : job.result = none) :
    ({ w with inFlight := w.inFlight.insert job } : WorkerService).stored j = w.stored j := by
  unfold stored
  rw [Table.lookup_insert]
  split
  · rename_i same
    subst same
    simp [absent, hr]
  · rfl

/-- A dispatch leaves the stored results alone. -/
theorem handleDispatch_stored (w : WorkerService) (msg : JobDispatch) (j : JobId) :
    (w.handleDispatch msg).1.stored j = w.stored j := by
  unfold handleDispatch
  split
  · rfl
  rename_i present
  split
  · rfl
  have absent : w.inFlight.lookup msg.jobId = none := by simpa using present
  have inserted := insert_stored w { jobId := msg.jobId, token := msg.token } j absent rfl
  exact (modify_stored _ msg.jobId (f := fun job => { job with heartbeatTimer := some w.nextTimer })
    (fun _ => rfl) (fun _ => rfl) j).trans inserted

theorem handleAck_stored (w : WorkerService) {jobId j : JobId} (h : j ≠ jobId) :
    (w.handleAck jobId).stored j = w.stored j := by
  unfold handleAck
  split
  · rfl
  · exact remove_stored _ h

/-- Of all messages only an ack of the job takes its result away. -/
theorem route_drops {w : WorkerService} {msg : CoordToWorkerMsg} {j : JobId}
    (h : (w.route msg).1.stored j ≠ w.stored j) : msg = .jobAck j := by
  cases msg with
  | jobDispatch msg => exact absurd (w.handleDispatch_stored msg j) h
  | jobAck jobId =>
    by_cases same : j = jobId
    · rw [same]
    · exact absurd (w.handleAck_stored same) h
  | ping | setConcurrency => exact absurd rfl h

end WorkerService

namespace Fleet

theorem send_all (s : Cluster) (out : List (SocketId × WorkerToCoordMsg)) :
    Reachable Cluster.step s { s with wire := s.wire ++ out } := by
  induction out generalizing s with
  | nil =>
    rw [List.append_nil]
    exact .refl
  | cons m rest ih =>
    have first : Reachable Cluster.step s { s with wire := s.wire ++ [m] } :=
      Reachable.refl.snoc (a := .workerSend m.1 m.2) rfl
    have others := ih { s with wire := s.wire ++ [m] }
    rw [List.append_assoc] at others
    exact first.trans others

theorem react_cluster {f f' : Fleet} {i : Nat} {e : WorkerEvent} (h : f.react i e = some f') :
    Reachable Cluster.step f.cluster f'.cluster := by
  obtain ⟨⟨w, sends⟩, _, rfl⟩ := Option.map_eq_some_iff.mp h
  exact send_all f.cluster (emitted w sends)

/-- What a fleet does is something its coordinators can do with clients at their will. -/
theorem step_cluster {f f' : Fleet} {a : Action} (h : step f a = some f') :
    Reachable Cluster.step f.cluster f'.cluster := by
  cases a with
  | coordinator a =>
    obtain ⟨cluster, hs, rfl⟩ := Option.map_eq_some_iff.mp h
    exact Reachable.refl.snoc hs
  | worker i e =>
    cases e with
    | message msg => cases h
    | _ => exact react_cluster h
  | deliver i k =>
    obtain ⟨m, _, hr⟩ := Option.bind_eq_some_iff.mp h
    exact react_cluster hr

theorem run_cluster {f f' : Fleet} (h : Reachable step f f') :
    Reachable Cluster.step f.cluster f'.cluster := by
  let Inv := fun g : Fleet => Reachable Cluster.step f.cluster g.cluster
  have initial : Inv f := .refl
  have kept : ∀ g a g', Inv g → step g a = some g' → Inv g' :=
    fun g a g' hg hs => hg.trans (step_cluster hs)
  exact h.invariant initial kept

theorem cluster_reachable {configs : List (WorkerId × Int)} {f : Fleet}
    (h : Reachable step (init configs) f) : Reachable Cluster.step .init f.cluster :=
  run_cluster h

/-- From `f` to `f'` worker `i` drops the result that it keeps for `j`. -/
def Drops (f : Fleet) (i : Nat) (j : JobId) (f' : Fleet) : Prop :=
  ∃ w w', f.workers[i]? = some w ∧ f'.workers[i]? = some w' ∧ (w.stored j).isSome ∧
    w'.stored j = none

/-- A worker drops a result only when it is acked. -/
theorem deliver_drops {f f' : Fleet} {i i' k : Nat} {j : JobId} (h : step f (.deliver i' k) = some f')
    (drops : f.Drops i j f') : ∃ ws, (ws, .jobAck j) ∈ f.cluster.sent := by
  obtain ⟨w, w', hw, hw', kept, gone⟩ := drops
  obtain ⟨⟨ws, msg⟩, hk, hr⟩ := Option.bind_eq_some_iff.mp h
  obtain ⟨⟨u, sends⟩, hu, rfl⟩ := Option.map_eq_some_iff.mp hr
  by_cases same : i = i'
  · subst same
    simp only [hw, Option.bind_some, WorkerService.handle, Option.some.injEq] at hu
    have hi : i < f.workers.length := (List.getElem?_eq_some_iff.mp hw).1
    simp only [List.getElem?_set, ↓reduceIte, hi, Option.some.injEq] at hw'
    subst hw'
    have changed : (w.route msg).1.stored j ≠ w.stored j := by
      rw [hu, gone]
      intro none
      rw [← none] at kept
      cases kept
    have ack := WorkerService.route_drops changed
    subst ack
    exact ⟨ws, List.mem_of_getElem? hk⟩
  · rw [List.getElem?_set_ne (Ne.symm same), hw] at hw'
    cases hw'
    rw [gone] at kept
    cases kept

/-- An ack means durable success: every job that was ever acked has its commit and
its result in the database, and so has every job whose result a worker drops when
a message reaches it, from then on. -/
structure AckDurable (f : Fleet) : Prop where
  acked : ∀ ws j, (ws, .jobAck j) ∈ f.cluster.sent → f.cluster.db.Decided j
  dropped : ∀ i k f' j, step f (.deliver i k) = some f' → f.Drops i j f' →
    ∀ f'', Reachable step f' f'' → f''.cluster.db.Decided j

/-- An ack is a promise that is kept: over workers, network and coordinators, whatever was
acked or dropped is committed for good. -/
theorem ack_durable {configs : List (WorkerId × Int)} {f : Fleet}
    (h : Reachable step (init configs) f) : f.AckDurable := by
  have known := cluster_reachable h
  have acked : ∀ ws j, (ws, .jobAck j) ∈ f.cluster.sent → f.cluster.db.Decided j := by
    intro ws j hm
    exact (decided_iff (Cluster.consistent_reachable known j)).mpr
      (Cluster.acked_reachable known ws j hm)
  refine ⟨acked, ?_⟩
  intro i k f' j hs drops f'' later
  obtain ⟨ws, hm⟩ := deliver_drops hs drops
  exact Cluster.decided_later known ((step_cluster hs).trans (run_cluster later)) (acked ws j hm)

/-- A worker runs a job, its ack is dropped, and the ack of the repeated result arrives. -/
def ackRun : List Action :=
  [.coordinator (.post "c1" (some (.str "k")) (some (.obj []))), .coordinator (.resume 0 (.quiet "c1" 1)),
    .coordinator (.resume 0 (.quiet "c1" 1)), .worker 0 (.start 1), .worker 0 (.opened 1),
    .coordinator (.receive "c1" 0 (.quiet "c1" 2)), .coordinator (.resume 0 (.quiet "c1" 2)),
    .coordinator (.dispatchTick "c1" "w1"), .coordinator (.resume 0 (.quiet "c1" 3)),
    .coordinator (.resume 0 (.quiet "c1" 3)), .deliver 0 0, .worker 0 (.completed 0 (.obj [])),
    .coordinator (.receive "c1" 1 (.quiet "c1" 4)), .coordinator (.resume 0 (.quiet "c1" 4)),
    .coordinator (.resume 0 { Ctx.quiet "c1" 5 with dropAck := true }), .worker 0 (.fire 1),
    .coordinator (.receive "c1" 2 (.quiet "c1" 6)), .coordinator (.resume 0 (.quiet "c1" 6)),
    .coordinator (.resume 0 (.quiet "c1" 6))]

theorem ack_durable_ackRun : ∃ f f', exec step (init [("w1", 4)]) ackRun = some f ∧
    step f (.deliver 0 1) = some f' ∧ f.Drops 0 1 f' ∧ f'.cluster.db.Decided 1 := by
  obtain ⟨f, hf, hp⟩ : ∃ f, exec step (init [("w1", 4)]) ackRun = some f ∧
      ((f.workers[0]?).any (fun w => (w.stored 1).isSome) &&
        (step f (.deliver 0 1)).any fun f' =>
          (f'.workers[0]?).any fun w => (w.stored 1).isNone) = true := exec_any (by decide)
  obtain ⟨kept, delivered⟩ := Bool.and_eq_true_iff.mp hp
  obtain ⟨w, hw, kept⟩ := (Option.any_eq_true _ _).mp kept
  obtain ⟨f', hs, delivered⟩ := (Option.any_eq_true _ _).mp delivered
  obtain ⟨w', hw', gone⟩ := (Option.any_eq_true _ _).mp delivered
  have drops : f.Drops 0 1 f' := ⟨w, w', hw, hw', kept, Option.isNone_iff_eq_none.mp gone⟩
  have durable := ack_durable (reachable_of_exec ackRun hf)
  exact ⟨f, f', hf, hs, drops, durable.dropped 0 1 f' 1 hs drops f' .refl⟩

end Fleet

end Dispatcher
