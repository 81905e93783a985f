import Dispatcher.Cluster.Messages

namespace Dispatcher
open Tables Runs

/-- A handler runs through its awaits to the end with nothing in between. -/
inductive Handles (wsOf : WorkerId → Option SocketId) : Db → List Task → Db → Prop where
  | done : Handles wsOf db [] db
  | resume (ctx : Ctx) (rest : Handles wsOf (t.resume ctx wsOf db).db
      ((t.resume ctx wsOf db).next ++ ts) db') : Handles wsOf db (t :: ts) db'

structure SameTables (db db' : Db) : Prop where
  jobs : db'.jobs = db.jobs
  leases : db'.leases = db.leases
  leaseHistory : db'.leaseHistory = db.leaseHistory
  jobTransitions : db'.jobTransitions = db.jobTransitions
  commitAttempts : db'.commitAttempts = db.commitAttempts

theorem SameTables.refl (db : Db) : SameTables db db := ⟨rfl, rfl, rfl, rfl, rfl⟩

/-- No lease of `j` under this token is held by the worker of the socket. -/
def Stale (db : Db) (state : Option WorkerId) (j : JobId) (token : Token) : Prop :=
  ∀ l ∈ db.leases.rows, ¬ (l.jobId = j ∧ state = some l.workerId ∧ l.token = token)

/-- The messages that a coordinator ignores when they are stale: all but the
failures, and of these the temporary ones that find nothing to give back. -/
def Ignored (db : Db) : WorkerToCoordMsg → Prop
  | .jobFailed msg => msg.temporary = true ∧ (∀ l ∈ db.leases.rows, l.jobId ≠ msg.jobId) ∧
      ∀ h ∈ db.leaseHistory, h.jobId = msg.jobId → h.terminatedAtMs.isSome
  | .jobResult _ | .jobHeartbeat _ | .workerHello .. | .pong => True

/-- A stale message names no lease of its worker. -/
theorem Stale.holds {db : Db} {workerId : WorkerId} {j : JobId} {token : Token}
    (h : Stale db (some workerId) j token) : db.holds j workerId token = false := by
  rw [Bool.eq_false_iff]
  intro hh
  obtain ⟨l, hl, rfl, ht⟩ := holds_iff.mp hh
  exact h l (Table.lookup_mem hl) ⟨Table.lookup_key hl, rfl, ht⟩

theorem staleHeartbeat {db : Db} {workerId : WorkerId} {msg : JobHeartbeat}
    (h : db.holds msg.jobId workerId msg.token = false) (newExpiry : Int) :
    onHeartbeatUpdate workerId msg newExpiry db = db := by
  have none := Table.count_eq_zero.mp (named_lease.mpr h)
  simp only [onHeartbeatUpdate, Db.updateLeases, Table.update_eq_self none]

/-- A stale result is not let into the transaction. -/
theorem staleLookup {db : Db} {workerId : WorkerId} {msg : JobResult} {ws : SocketId}
    (h : db.holds msg.jobId workerId msg.token = false) (ctx : Ctx)
    (wsOf : WorkerId → Option SocketId) :
    (Task.resultLookup ws workerId msg).resume ctx wsOf db = { db, next := [.resultReAck ws msg] } := by
  simp only [Task.resume]
  cases hl : leaseOfWorker db msg.jobId workerId with
  | none => rfl
  | some l =>
    have hm := List.find?_some hl
    have hr := List.mem_of_find?_eq_some hl
    simp only [Bool.and_eq_true, decide_eq_true_eq] at hm
    have hn : l.token ≠ msg.token := by
      intro ht
      have hh := holds_iff.mpr ⟨l, hm.1 ▸ Table.lookup_of_mem hr, hm.2, ht⟩
      rw [h] at hh
      cases hh
    simp [hn]

theorem reAck_outcome (ws : SocketId) (msg : JobResult) (ctx : Ctx)
    (wsOf : WorkerId → Option SocketId) (db : Db) :
    ((Task.resultReAck ws msg).resume ctx wsOf db).db = db ∧
      ((Task.resultReAck ws msg).resume ctx wsOf db).next = [] := by
  simp only [Task.resume]
  split <;> exact ⟨rfl, rfl⟩

/-- A handler that ends after its next await. -/
theorem handles_last {wsOf : WorkerId → Option SocketId} {db db' : Db} {t : Task}
    (last : ∀ ctx, (t.resume ctx wsOf db).next = []) (h : Handles wsOf db [t] db') :
    ∃ ctx, db' = (t.resume ctx wsOf db).db := by
  cases h with
  | resume ctx rest =>
    rw [last ctx] at rest
    cases rest
    exact ⟨ctx, rfl⟩

theorem terminate_eq_self (rows : List LeaseHistory) (p : JobId → Bool) (atMs : Int) :
    rows.map (·.terminate p atMs) = rows ↔ ∀ h ∈ rows, p h.jobId = true → h.terminatedAtMs.isSome := by
  have hid : rows.map (·.terminate p atMs) = rows ↔
      rows.map (·.terminate p atMs) = rows.map id := by rw [List.map_id]
  rw [hid, List.map_inj_left]
  apply forall₂_congr
  intro h _
  obtain ⟨j, w, f, i, t⟩ := h
  cases t <;> cases hp : p j <;> simp [LeaseHistory.terminate, hp]

/-- A temporary failure changes nothing exactly when it finds nothing to give back. -/
theorem temporary_same_iff {n : Nat} {db : Db} {msg : JobFailed}
    (hc : Consistent n (db.view msg.jobId)) (ht : msg.temporary = true) (ctx : Ctx) :
    SameTables db (onFailedTx ctx msg db) ↔ Ignored db (.jobFailed msg) := by
  simp only [onFailedTx, ht, ↓reduceIte, Ignored, true_and]
  constructor
  · intro h
    refine ⟨?_, ?_⟩
    · intro l hl hj
      have leases := congrArg Table.rows h.leases
      have kept := List.filter_eq_self.mp leases l hl
      simp [hj] at kept
    · intro q hq hj
      exact (terminate_eq_self _ _ _).mp h.leaseHistory q hq (by simpa using hj)
  · rintro ⟨unleased, closed⟩
    have lease : (db.view msg.jobId).lease = none := Table.lookup_eq_none.mpr unleased
    have status : db.statusOf msg.jobId ≠ some .dispatched := by
      intro hd
      have hl := hc.dispatched hd
      rw [lease] at hl
      cases hl
    have deleted : (db.deleteLeases fun l => l.jobId = msg.jobId).2 = db := by
      apply deleteLeases_none
      rw [Table.count_eq_zero]
      intro l hl
      simpa using unleased l hl
    have updated := fun patch => updateJobs_none (dispatched_count.mpr status) patch
    have history := (terminate_eq_self db.leaseHistory (· = msg.jobId) ctx.laterMs).mpr
      fun q hq hj => closed q hq (by simpa using hj)
    rw [deleted, updated]
    exact ⟨rfl, rfl, history, rfl, rfl⟩

/-- A permanent failure always leaves its row. -/
theorem permanent_not_same (db : Db) (msg : JobFailed) (ht : msg.temporary = false) (ctx : Ctx) :
    ¬ SameTables db (onFailedTx ctx msg db) := by
  intro h
  have rows := h.jobTransitions
  simp [onFailedTx, ht, Db.insertJobTransitions, Db.terminateHistory, Db.updateJobs,
    Db.deleteLeases] at rows

/-- `onFailed` leaves the tables alone only where it finds nothing to change. -/
theorem failed_same_iff {n : Nat} {db : Db} {msg : JobFailed}
    (hc : Consistent n (db.view msg.jobId)) (ctx : Ctx) :
    SameTables db (onFailedTx ctx msg db) ↔ Ignored db (.jobFailed msg) := by
  cases ht : msg.temporary with
  | true => exact temporary_same_iff hc ht ctx
  | false => exact iff_of_false (permanent_not_same db msg ht ctx) (by simp [Ignored, ht])

namespace Cluster

/-- A stale message of a worker changes nothing exactly when it is ignored. -/
theorem stale_ignored_iff {s : Cluster} (h : Reachable step init s) {c : CoordinatorId}
    {ws : SocketId} {msg : WorkerToCoordMsg} {j : JobId} {token : Token}
    (claim : msg.claim = some (j, token)) (stale : Stale s.db (s.stateByWs c ws) j token)
    {ctx : Ctx} {db : Db}
    (handled : Handles (s.wsOf c) s.db (onMessage ctx (s.stateByWs c ws) ws msg) db) :
    SameTables s.db db ↔ Ignored s.db msg := by
  cases msg with
  | workerHello | pong => cases claim
  | jobFailed msg =>
    cases claim
    obtain ⟨ctx', rfl⟩ := handles_last (t := .failedTx msg) (fun _ => rfl) handled
    exact failed_same_iff (consistent_reachable h msg.jobId) ctx'
  | jobHeartbeat msg =>
    cases claim
    refine iff_of_true ?_ trivial
    cases hs : s.stateByWs c ws with
    | none =>
      rw [hs] at handled
      cases handled
      exact .refl _
    | some workerId =>
      rw [hs] at handled stale
      obtain ⟨ctx', rfl⟩ := handles_last (t := .heartbeatUpdate workerId msg (heartbeatExpiry ctx))
        (fun _ => rfl) handled
      simp only [Task.resume, staleHeartbeat stale.holds]
      exact .refl _
  | jobResult msg =>
    cases claim
    refine iff_of_true ?_ trivial
    cases hs : s.stateByWs c ws with
    | none =>
      rw [hs] at handled
      cases handled
      exact .refl _
    | some workerId =>
      rw [hs] at handled stale
      cases handled with
      | resume ctx' rest =>
        rw [staleLookup stale.holds] at rest
        obtain ⟨ctx'', rfl⟩ := handles_last (fun ctx => (reAck_outcome ws msg ctx _ _).2) rest
        rw [(reAck_outcome ws msg ctx'' _ _).1]
        exact .refl _

/-- A job of which "w1" lost its lease to "w2". -/
def reissueRun : List Action :=
  [.post "c1" (some (.str "k")) (some (.obj [])), .resume 0 (.quiet "c1" 1), .resume 0 (.quiet "c1" 1),
    .workerSend 1 (.workerHello "w1" 4), .receive "c1" 0 (.quiet "c1" 2), .resume 0 (.quiet "c1" 2),
    .workerSend 2 (.workerHello "w2" 4), .receive "c1" 1 (.quiet "c1" 2), .resume 0 (.quiet "c1" 2),
    .dispatchTick "c1" "w1", .resume 0 (.quiet "c1" 3), .resume 0 (.quiet "c1" 3),
    .reaperTick "c2" (.quiet "c2" 70000), .resume 0 (.quiet "c2" 70000),
    .dispatchTick "c1" "w2", .resume 0 (.quiet "c1" 70001), .resume 0 (.quiet "c1" 70001)]

theorem reissueRun_stale : ∃ s, exec step init reissueRun = some s ∧
    s.stateByWs "c1" 1 = some "w1" ∧ Stale s.db (some "w1") 1 1 := by
  obtain ⟨s, hs, hp⟩ : ∃ s, exec step init reissueRun = some s ∧
      decide (s.stateByWs "c1" 1 = some "w1" ∧ s.db.leases.rows.map Lease.token = [2]) = true :=
    exec_any (by decide)
  obtain ⟨hw, hl⟩ := of_decide_eq_true hp
  refine ⟨s, hs, hw, ?_⟩
  intro l hm held
  have hr : l.token ∈ s.db.leases.rows.map Lease.token := List.mem_map_of_mem hm
  rw [hl, held.2.2, List.mem_singleton] at hr
  cases hr

/-- The old holder fails the job of the new one. -/
theorem reissueRun_fails : ∃ s db, exec step init reissueRun = some s ∧
    Stale s.db (s.stateByWs "c1" 1) 1 1 ∧
    Handles (s.wsOf "c1") s.db
      (onMessage (.quiet "c1" 70002) (s.stateByWs "c1" 1) 1 (.jobFailed ⟨1, 1, "boom", false⟩)) db ∧
    ¬ SameTables s.db db := by
  obtain ⟨s, hs, hw, stale⟩ := reissueRun_stale
  have changed := permanent_not_same s.db ⟨1, 1, "boom", false⟩ rfl (.quiet "c1" 70002)
  exact ⟨s, _, hs, hw ▸ stale, .resume (.quiet "c1" 70002) .done, changed⟩

/-- The old holder's result is ignored. -/
theorem stale_ignored_reissueRun : ∃ s db, exec step init reissueRun = some s ∧
    Handles (s.wsOf "c1") s.db
      (onMessage (.quiet "c1" 70002) (s.stateByWs "c1" 1) 1 (.jobResult ⟨1, 1, .obj []⟩)) db ∧
    SameTables s.db db := by
  obtain ⟨s, hs, hw, stale⟩ := reissueRun_stale
  have handled : Handles (s.wsOf "c1") s.db
      (onMessage (.quiet "c1" 70002) (s.stateByWs "c1" 1) 1 (.jobResult ⟨1, 1, .obj []⟩)) s.db := by
    rw [hw]
    refine .resume (.quiet "c1" 70002) ?_
    rw [staleLookup stale.holds]
    refine .resume (.quiet "c1" 70002) ?_
    obtain ⟨hd, hn⟩ := reAck_outcome 1 ⟨1, 1, .obj []⟩ (.quiet "c1" 70002) (s.wsOf "c1") s.db
    rw [hd, hn]
    exact .done
  refine ⟨s, s.db, hs, handled, ?_⟩
  exact (stale_ignored_iff (reachable_of_exec reissueRun hs) rfl (hw ▸ stale) handled).mpr trivial

end Cluster

end Dispatcher
