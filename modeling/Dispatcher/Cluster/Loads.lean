import Dispatcher.Cluster.Messages

namespace Dispatcher
open Tables Runs

def JobView.submission (v : JobView) : Option (String × Json) :=
  v.job.map fun r => (r.idempotencyKey, r.payload)

def Db.submissionOf (db : Db) (j : JobId) : Option (String × Json) := (db.view j).submission

def Task.submission : Task → Option (String × Json)
  | .submitLookup key payload | .submitTx key payload | .submitWinner key payload =>
    some (key, payload)
  | _ => none

theorem patched_submission (v : JobView) (patch : Db.JobPatch) :
    (v.patchDispatched patch).map (fun r => (r.idempotencyKey, r.payload)) = v.submission := by
  unfold JobView.patchDispatched JobView.submission
  rw [Option.map_map]
  congr 1
  funext r
  simp only [Function.comp_apply]
  split <;> rfl

/-- A row keeps its key and its payload, and only a submission makes a row. -/
theorem apply_submission {v : JobView} {n : Nat} {j : JobId} {e : JobEvent} (he : e.Enabled n v) :
    (e.apply j v).submission = v.submission ∨
      v.submission = none ∧ ∃ ctx key payload, e = .submitted ctx key payload ∧
        (e.apply j v).submission = some (key, payload) := by
  cases e with
  | submitted ctx key payload =>
    have absent : v.job = none := he
    exact .inr ⟨by simp [JobView.submission, absent], ctx, key, payload, rfl, rfl⟩
  | dispatched | cancelled =>
    refine .inl ?_
    simp only [JobEvent.apply, JobView.submission, Option.map_map]
    rfl
  | accepted | requeued | failed | reaped => exact .inl (patched_submission v _)
  | discarded | extended => exact .inl rfl

theorem resume_submission {t t' : Task} {ctx : Ctx} {wsOf : WorkerId → Option SocketId} {db : Db}
    (ht : t' ∈ (t.resume ctx wsOf db).next) (hx : t'.submission = some x) :
    t.submission = some x := by
  cases t with
  | submitLookup key payload | submitTx key payload =>
    simp only [Task.resume] at ht
    split at ht
    all_goals first
      | cases ht; done
      | cases List.mem_singleton.mp ht; exact hx
  | dispatchTx | resultLookup | resultTx | cancelLookup | dispatchSend | resultReAck =>
    simp only [Task.resume] at ht
    repeat' split at ht
    all_goals first
      | cases ht; done
      | cases List.mem_singleton.mp ht; cases hx
  | helloUpsert | failedTx | heartbeatUpdate | reaperTx | submitWinner | cancelTx => cases ht

theorem fail_submission {t t' : Task} {error : String} {db : Db} (ht : t' ∈ (t.fail db error).next)
    (hx : t'.submission = some x) : t.submission = some x := by
  cases t with
  | submitLookup key payload =>
    cases List.mem_singleton.mp ht
    exact hx
  | resultLookup =>
    cases List.mem_singleton.mp ht
    cases hx
  | _ => cases ht

theorem onMessage_submission {ctx : Ctx} {state : Option WorkerId} {ws : SocketId}
    {msg : WorkerToCoordMsg} {t : Task} (ht : t ∈ onMessage ctx state ws msg) :
    t.submission = none := by
  cases msg with
  | jobResult | jobHeartbeat =>
    obtain ⟨w, _, rfl⟩ := List.mem_map.mp ht
    rfl
  | jobFailed | workerHello =>
    cases List.mem_singleton.mp ht
    rfl
  | pong => cases ht

/-- The checks pass the key and the payload on as they are. -/
theorem validateSubmit_ok {idempotencyKey payload : Option Json} {key : String} {payload' : Json}
    (h : validateSubmit idempotencyKey payload = .ok (key, payload')) :
    idempotencyKey = some (.str key) ∧ payload = some payload' := by
  unfold validateSubmit at h
  split at h
  · split at h
    · cases h
    split at h
    · cases h
    split at h
    · cases h
      exact ⟨rfl, rfl⟩
    · cases h
  · cases h

/-- The dispatch that a handler has committed and not sent yet. -/
def Task.load : Task → Option Dispatched
  | .dispatchSend _ job => some job
  | _ => none

def CoordToWorkerMsg.load : CoordToWorkerMsg → Option Dispatched
  | .jobDispatch msg => some ⟨msg.jobId, msg.token, msg.payload⟩
  | _ => none

/-- The dispatch that a handler step commits. -/
def Task.drawn (ctx : Ctx) (db : Db) : Task → Option Dispatched
  | .dispatchTx _ => match headOfQueue ctx db with
    | some job => if (db.leases.lookup job.jobId).isSome then none
      else some ⟨job.jobId, db.fencingSeq + 1, job.payload⟩
    | none => none
  | _ => none

/-- A dispatch that commits draws the next token, and takes the payload that the job was
submitted with. -/
theorem drawn_event {ctx : Ctx} {db : Db} {t : Task} {d : Dispatched} (h : t.drawn ctx db = some d) :
    (∃ workerId, t.event ctx db d.jobId = some (.dispatched ctx workerId d.token)) ∧
    d.token = db.fencingSeq + 1 ∧
    ∃ key, db.submissionOf d.jobId = some (key, d.payload) := by
  cases t with
  | dispatchTx workerId =>
    simp only [Task.drawn] at h
    split at h
    next job hq =>
      simp only [Option.ite_none_left_eq_some, Bool.not_eq_true, Option.isSome_eq_false_iff,
        Option.isNone_iff_eq_none, Option.some.injEq] at h
      obtain ⟨free, rfl⟩ := h
      have row := (headOfQueue_spec hq).1
      refine ⟨⟨workerId, ?_⟩, rfl, job.idempotencyKey, ?_⟩
      · simp [Task.event, dispatchedJob, hq, free]
      · simp [Db.submissionOf, JobView.submission, Db.view, row]
    next => cases h
  | _ => cases h

theorem resume_next_load (t : Task) (ctx : Ctx) (wsOf : WorkerId → Option SocketId) (db : Db) :
    (t.resume ctx wsOf db).next.filterMap Task.load = (t.drawn ctx db).toList := by
  cases t with
  | dispatchTx workerId =>
    simp only [Task.resume, Task.drawn, tryDispatchOneTx_eq]
    cases headOfQueue ctx db with
    | none => rfl
    | some job => by_cases leased : (db.leases.lookup job.jobId).isSome <;> simp [leased, Task.load]
  | resultLookup | resultTx | cancelLookup | dispatchSend | resultReAck | submitLookup | submitTx =>
    simp only [Task.resume, Task.drawn]
    repeat' split
    all_goals rfl
  | helloUpsert | failedTx | heartbeatUpdate | reaperTx | submitWinner | cancelTx => rfl

/-- A handler sends the dispatch that it was started with, or drops it. -/
theorem resume_sent_load (t : Task) (ctx : Ctx) (wsOf : WorkerId → Option SocketId) (db : Db) :
    ((t.resume ctx wsOf db).sent.filterMap fun m => m.2.load).Sublist t.load.toList := by
  cases t with
  | dispatchSend workerId job =>
    simp only [Task.resume, Task.load, sendMsg]
    split
    · split
      · exact List.Sublist.refl _
      · exact List.nil_sublist _
    · exact List.nil_sublist _
  | resultTx | resultReAck | resultLookup | dispatchTx | submitLookup | submitTx | cancelLookup =>
    simp only [Task.resume, Task.load, sendMsg]
    repeat' split
    all_goals exact List.Sublist.refl _
  | helloUpsert | failedTx | heartbeatUpdate | reaperTx | submitWinner | cancelTx =>
    exact List.Sublist.refl _

theorem fail_load (t : Task) (error : String) (db : Db) :
    (t.fail db error).next.filterMap Task.load = [] := by
  cases t <;> rfl

theorem onMessage_load (ctx : Ctx) (state : Option WorkerId) (ws : SocketId) (msg : WorkerToCoordMsg) :
    (onMessage ctx state ws msg).filterMap Task.load = [] := by
  cases msg with
  | jobResult | jobHeartbeat =>
    simp only [onMessage]
    cases state <;> rfl
  | jobFailed | workerHello | pong => rfl

namespace Cluster

/-- Everything dispatched that is about to be sent or has been sent. -/
def loads (s : Cluster) : List Dispatched :=
  s.tasks.filterMap (fun p => p.2.load) ++ s.sent.filterMap fun m => m.2.load

def drawn (s : Cluster) (a : Action) : Option Dispatched :=
  (s.resumed a).bind fun p => p.2.drawn p.1 s.db

theorem spawn_loads (s : Cluster) (c : CoordinatorId) {next : List Task}
    (unloaded : next.filterMap Task.load = []) : (s.spawn c next).loads = s.loads := by
  simp [loads, spawn, List.filterMap_append, List.filterMap_map, unloaded]

theorem finish_loads {s : Cluster} {i : Nat} {c : CoordinatorId} {t : Task} {o : Outcome}
    (hi : s.tasks[i]? = some (c, t))
    (sent : (o.sent.filterMap fun m => m.2.load).Sublist t.load.toList) (p : Dispatched → Bool) :
    (s.finish i c o).loads.countP p ≤
      s.loads.countP p + (o.next.filterMap Task.load).countP p := by
  obtain ⟨hlt, ht⟩ := List.getElem?_eq_some_iff.mp hi
  have taken := ((List.getElem_cons_eraseIdx_perm hlt).filterMap fun p => p.2.load).countP_eq p
  have split : ((c, t) :: s.tasks.eraseIdx i).filterMap (fun p => p.2.load) =
      t.load.toList ++ (s.tasks.eraseIdx i).filterMap (fun p => p.2.load) := by
    cases hl : t.load <;> simp [hl]
  rw [ht, split, List.countP_append] at taken
  have parts : (s.finish i c o).loads =
      (s.tasks.eraseIdx i).filterMap (fun p => p.2.load) ++ o.next.filterMap Task.load ++
        (s.sent.filterMap (fun m => m.2.load) ++ o.sent.filterMap fun m => m.2.load) := by
    simp [loads, finish, List.filterMap_append, List.filterMap_map]
  have few := sent.countP_le (p := p)
  rw [parts]
  simp only [loads, List.countP_append]
  omega

/-- A step adds the dispatch that it commits, and no other. -/
theorem step_loads {s s' : Cluster} {a : Action} (h : step s a = some s') (p : Dispatched → Bool) :
    s'.loads.countP p ≤ s.loads.countP p + (s.drawn a).toList.countP p := by
  cases step_moves h with
  | submitted | deleted | dispatched | reaped =>
    rw [spawn_loads _ _ rfl]
    exact Nat.le_add_right _ _
  | received =>
    rw [spawn_loads _ _ (onMessage_load ..)]
    exact Nat.le_add_right _ _
  | refused | written | left | skipped => exact Nat.le_add_right _ _
  | crashed =>
    refine Nat.le_trans (List.Sublist.countP_le ?_) (Nat.le_add_right _ _)
    exact (List.filter_sublist.filterMap _).append (List.Sublist.refl _)
  | @resumed i ctx c t hi =>
    have bound := finish_loads hi (resume_sent_load t { ctx with coordinatorId := c } (s.wsOf c) s.db) p
    rw [resume_next_load] at bound
    simpa [drawn, resumed, hi] using bound
  | @failed i error c t hi =>
    have silent : (t.fail s.db error).sent = [] := by cases t <;> rfl
    have bound := finish_loads (o := t.fail s.db error) hi (by simp [silent]) p
    rw [fail_load] at bound
    exact Nat.le_trans bound (Nat.add_le_add_left (Nat.zero_le _) _)

/-- Whatever is about to be sent was so before, or this step has committed it. -/
theorem mem_loads_step {s s' : Cluster} {a : Action} {d : Dispatched} (h : step s a = some s')
    (hd : d ∈ s'.loads) : d ∈ s.loads ∨ s.drawn a = some d := by
  classical
  have bound := step_loads h fun x => decide (x = d)
  have present : 0 < s'.loads.countP fun x => decide (x = d) :=
    List.countP_pos_iff.mpr ⟨d, hd, by simp⟩
  by_cases before : 0 < s.loads.countP fun x => decide (x = d)
  · obtain ⟨x, hx, same⟩ := List.countP_pos_iff.mp before
    exact .inl (of_decide_eq_true same ▸ hx)
  · have now : 0 < (s.drawn a).toList.countP fun x => decide (x = d) := by omega
    obtain ⟨x, hx, same⟩ := List.countP_pos_iff.mp now
    exact .inr (of_decide_eq_true same ▸ Option.mem_toList.mp hx)

/-- The key and the payload of a row never change. -/
theorem step_submission {s s' : Cluster} {a : Action} (h : step s a = some s') (j : JobId) :
    s'.db.submissionOf j = s.db.submissionOf j ∨
      s.db.submissionOf j = none ∧ ∃ p ∈ s.tasks, ∃ x, p.2.submission = some x ∧
        s'.db.submissionOf j = some x := by
  unfold Db.submissionOf
  rw [step_view h j]
  cases he : s.event a j with
  | none => exact .inl rfl
  | some e =>
    rcases apply_submission (j := j) (step_enabled he) with same | ⟨absent, ctx, key, payload, rfl, new⟩
    · exact .inl same
    · obtain ⟨⟨ctx', t⟩, hr, ht⟩ := Option.bind_eq_some_iff.mp he
      obtain ⟨c, hm⟩ := resumed_task hr
      have origin : t = .submitTx key payload := event_origin ht
      exact .inr ⟨absent, _, hm, _, by rw [origin]; rfl, new⟩

/-- What a job was submitted with never changes. -/
theorem submission_kept {s s' : Cluster} {j : JobId} (later : Reachable step s s')
    (hx : s.db.submissionOf j = some x) : s'.db.submissionOf j = some x := by
  let Inv := fun u : Cluster => u.db.submissionOf j = some x
  have kept : ∀ u a t, Inv u → step u a = some t → Inv t := by
    intro u a t hu hs
    rcases step_submission hs j with same | ⟨absent, _⟩
    · exact same.trans hu
    · cases absent.symm.trans hu
  exact later.invariant hx kept

/-- The rows that a job was leased under, whatever became of them, stay. -/
theorem grant_kept {s s' : Cluster} {a : Action} {j : JobId} (h : Reachable step init s)
    (hs : step s a = some s') (hg : g ∈ (s.db.view j).ledger.grants) :
    g ∈ (s'.db.view j).ledger.grants := by
  rw [step_view hs j]
  cases he : s.event a j with
  | none => exact hg
  | some e => exact (ledger_step (consistent_reachable h j) (step_enabled he)).keeps_grants hg

/-- Every dispatch on its way has a token of its own, from the history of its job,
and the payload that the job was submitted with. -/
structure Loaded (s : Cluster) : Prop where
  once : (s.loads.map Dispatched.token).Nodup
  issued : ∀ d ∈ s.loads, ∃ workerId, (workerId, d.token) ∈ (s.db.view d.jobId).ledger.grants
  payload : ∀ d ∈ s.loads, ∃ key, s.db.submissionOf d.jobId = some (key, d.payload)

theorem Loaded.le {s : Cluster} (h : s.Loaded) (known : Reachable step init s) {d : Dispatched}
    (hd : d ∈ s.loads) : d.token ≤ s.db.fencingSeq := by
  obtain ⟨workerId, hg⟩ := h.issued d hd
  obtain ⟨row, hrow, same⟩ := List.mem_map.mp hg
  have bound := (consistent_reachable known d.jobId).fences row hrow
  simp only [Prod.mk.injEq] at same
  exact same.2 ▸ bound

theorem loaded_step {s s' : Cluster} {a : Action} (known : Reachable step init s) (hs : s.Loaded)
    (h : step s a = some s') : s'.Loaded := by
  have new : ∀ d, s.drawn a = some d → d.token = s.db.fencingSeq + 1 ∧
      (∃ ctx workerId, s.event a d.jobId = some (.dispatched ctx workerId d.token)) ∧
      ∃ key, s.db.submissionOf d.jobId = some (key, d.payload) := by
    intro d hd
    obtain ⟨⟨ctx, t⟩, hr, hd⟩ := Option.bind_eq_some_iff.mp hd
    obtain ⟨⟨workerId, he⟩, token, row⟩ := drawn_event hd
    exact ⟨token, ⟨ctx, workerId, by simp [event, hr, he]⟩, row⟩
  constructor
  · rw [List.nodup_iff_count_le_one]
    intro token
    have bound := step_loads h fun d => d.token == token
    have before := List.nodup_iff_count_le_one.mp hs.once token
    simp only [List.count, List.countP_map, Function.comp_def] at before ⊢
    cases hd : s.drawn a with
    | none =>
      rw [hd] at bound
      exact Nat.le_trans bound before
    | some d =>
      rw [hd] at bound
      by_cases same : d.token = token
      · have fresh : s.loads.countP (fun d => d.token == token) = 0 := by
          rw [List.countP_eq_zero]
          intro d' hd'
          have older : d'.token < d.token := (new d hd).1 ▸ Nat.lt_succ_of_le (hs.le known hd')
          simpa [← same] using Nat.ne_of_lt older
        rw [fresh] at bound
        simpa [same] using bound
      · simp only [Option.toList_some, List.countP_singleton, beq_iff_eq, same, ↓reduceIte] at bound
        exact Nat.le_trans bound before
  · intro d hd
    rcases mem_loads_step h hd with hd | hd
    · obtain ⟨workerId, hg⟩ := hs.issued d hd
      exact ⟨workerId, grant_kept known h hg⟩
    · obtain ⟨_, ⟨ctx, workerId, he⟩, _⟩ := new d hd
      refine ⟨workerId, ?_⟩
      rw [step_view h, he]
      simp [JobView.after, JobEvent.apply, JobView.ledger]
  · intro d hd
    obtain ⟨key, row⟩ : ∃ key, s.db.submissionOf d.jobId = some (key, d.payload) := by
      rcases mem_loads_step h hd with hd | hd
      · exact hs.payload d hd
      · exact (new d hd).2.2
    exact ⟨key, submission_kept (Reachable.refl.snoc h) row⟩

/-- Every dispatch on its way is the lease of its token, whatever the coordinators do. -/
theorem loaded_reachable {s : Cluster} (h : Reachable step init s) : s.Loaded :=
  h.invariant_with (fun _ known => known)
    ⟨List.nodup_nil, fun _ hd => absurd hd List.not_mem_nil, fun _ hd => absurd hd List.not_mem_nil⟩
    fun _ _ _ known hs => loaded_step known hs

end Cluster

end Dispatcher
