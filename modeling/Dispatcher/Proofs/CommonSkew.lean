import Dispatcher.Proofs.MessageFencing
import Mathlib.Data.List.InsertIdx

namespace Dispatcher
open Tables Runs

/-- A second database differs from a first in the expiries alone, by `k`. -/
structure SkewedBy (k : Int) (db db' : Db) : Prop where
  jobs : db'.jobs = db.jobs
  leases : db'.leases.rows = db.leases.rows.map fun l => { l with expiresAt := l.expiresAt + k }
  leaseHistory : db'.leaseHistory = db.leaseHistory
  jobTransitions : db'.jobTransitions = db.jobTransitions
  commitAttempts : db'.commitAttempts = db.commitAttempts
  fencingSeq : db'.fencingSeq = db.fencingSeq

def Ctx.skewed (k : Int) (ctx : Ctx) : Ctx := { ctx with skewMs := ctx.skewMs + k }

def Action.skewed (k : Int) : Action → Action
  | .receive c i ctx => .receive c i (ctx.skewed k)
  | .reaperTick c ctx => .reaperTick c (ctx.skewed k)
  | .resume i ctx => .resume i (ctx.skewed k)
  | a => a

def Lease.shift (k : Int) (l : Lease) : Lease := { l with expiresAt := l.expiresAt + k }

theorem Lease.shift_jobId (k : Int) (l : Lease) : (l.shift k).jobId = l.jobId := rfl

def Db.shift (k : Int) (db : Db) : Db :=
  { db with leases := db.leases.map (Lease.shift k) (Lease.shift_jobId k) }

/-- The readings that a suspended handler carries move as well. -/
def Task.shift (k : Int) : Task → Task
  | .heartbeatUpdate workerId msg newExpiry => .heartbeatUpdate workerId msg (newExpiry + k)
  | .reaperTx now => .reaperTx (now + k)
  | t => t

def Outcome.shift (k : Int) (o : Outcome) : Outcome :=
  { o with db := o.db.shift k, next := o.next.map (Task.shift k) }

def Cluster.shift (k : Int) (s : Cluster) : Cluster :=
  { s with db := s.db.shift k, tasks := s.tasks.map fun p => (p.1, p.2.shift k) }

theorem shift_skewedBy (k : Int) (db : Db) : SkewedBy k db (db.shift k) :=
  ⟨rfl, rfl, rfl, rfl, rfl, rfl⟩

section transactions

variable (k : Int) (ctx : Ctx) (db : Db)

theorem lease_shift (j : JobId) :
    (db.shift k).leases.lookup j = (db.leases.lookup j).map (Lease.shift k) :=
  Table.lookup_map _ (Lease.shift_jobId k) j

theorem deleteLeases_shift {p : Lease → Bool} (hp : ∀ l, p (l.shift k) = p l) :
    (db.shift k).deleteLeases p = ((db.deleteLeases p).1, (db.deleteLeases p).2.shift k) := by
  have affected : (db.shift k).leases.count p = db.leases.count p :=
    Table.count_map _ (Lease.shift_jobId k) hp
  have left : (db.shift k).leases.delete p = (db.leases.delete p).map (Lease.shift k) (Lease.shift_jobId k) :=
    Table.delete_map _ (Lease.shift_jobId k) hp
  simp only [Db.deleteLeases, affected, left]
  rfl

theorem dispatchedDb_shift (workerId : WorkerId) (job : Job) :
    dispatchedDb (ctx.skewed k) workerId job (db.shift k) =
      (dispatchedDb ctx workerId job db).shift k := by
  have issue : (⟨job.jobId, workerId, db.fencingSeq + 1,
        ctx.nowMs + DISPATCH_LEASE_TTL_MS + (ctx.skewMs + k)⟩ : Lease) =
      Lease.shift k ⟨job.jobId, workerId, db.fencingSeq + 1,
        ctx.nowMs + DISPATCH_LEASE_TTL_MS + ctx.skewMs⟩ := by
    simp only [Lease.shift, Int.add_assoc]
  have inserted := Table.insert_map db.leases (Lease.shift_jobId k)
    ⟨job.jobId, workerId, db.fencingSeq + 1, ctx.nowMs + DISPATCH_LEASE_TTL_MS + ctx.skewMs⟩
  simp only [dispatchedDb, Ctx.skewed, Db.shift, issue, inserted]
  rfl

/-- The issue of a lease is the one place where a dispatch reads the skew. -/
theorem tryDispatchOneTx_shift (workerId : WorkerId) :
    tryDispatchOneTx (ctx.skewed k) workerId (db.shift k) =
      (tryDispatchOneTx ctx workerId db).map fun p => (p.1, p.2.shift k) := by
  have head : headOfQueue (ctx.skewed k) (db.shift k) = headOfQueue ctx db := rfl
  rw [tryDispatchOneTx_eq, tryDispatchOneTx_eq, head]
  cases headOfQueue ctx db with
  | none => rfl
  | some job =>
    simp only [lease_shift, Option.isSome_map, dispatchedDb_shift]
    split <;> rfl

theorem leaseOfWorker_shift (j : JobId) (workerId : WorkerId) :
    leaseOfWorker (db.shift k) j workerId = (leaseOfWorker db j workerId).map (Lease.shift k) := by
  simp only [leaseOfWorker, Db.shift, Table.map, List.find?_map]
  rfl

theorem holds_shift (j : JobId) (workerId : WorkerId) (token : Token) :
    (db.shift k).holds j workerId token = db.holds j workerId token := by
  unfold Db.holds
  rw [lease_shift]
  cases db.leases.lookup j <;> rfl

theorem onResultTx_shift (workerId : WorkerId) (msg : JobResult) :
    onResultTx (ctx.skewed k) workerId msg (db.shift k) =
      ((onResultTx ctx workerId msg db).1, (onResultTx ctx workerId msg db).2.shift k) := by
  have same := holds_shift k db msg.jobId workerId msg.token
  have deleted : resultDelete workerId msg (db.shift k) = (resultDelete workerId msg db).shift k := by
    unfold resultDelete
    rw [deleteLeases_shift k db fun _ => rfl]
  cases hh : db.holds msg.jobId workerId msg.token with
  | false =>
    rw [onResultTx_stale hh, onResultTx_stale (same.trans hh)]
  | true =>
    by_cases hs : db.statusOf msg.jobId = some .dispatched
    · rw [onResultTx_accepted hh hs, onResultTx_accepted (same.trans hh) hs, deleted]
      rfl
    · rw [onResultTx_discarded hh hs, onResultTx_discarded (same.trans hh) hs, deleted]

theorem onFailedTx_shift (msg : JobFailed) :
    onFailedTx (ctx.skewed k) msg (db.shift k) = (onFailedTx ctx msg db).shift k := by
  have deleted := deleteLeases_shift k db (p := fun l => l.jobId = msg.jobId) fun _ => rfl
  unfold onFailedTx
  simp only [deleted]
  split <;> rfl

theorem onHeartbeatUpdate_shift (workerId : WorkerId) (msg : JobHeartbeat) (newExpiry : Int) :
    onHeartbeatUpdate workerId msg (newExpiry + k) (db.shift k) =
      (onHeartbeatUpdate workerId msg newExpiry db).shift k := by
  have updated : (db.shift k).leases.update
      (fun l => l.jobId = msg.jobId && l.workerId = workerId && l.token = msg.token)
      (fun l => { l with expiresAt := newExpiry + k }) (fun _ => rfl) =
    (db.leases.update
      (fun l => l.jobId = msg.jobId && l.workerId = workerId && l.token = msg.token)
      (fun l => { l with expiresAt := newExpiry }) fun _ => rfl).map (Lease.shift k) (Lease.shift_jobId k) :=
    Table.update_map _ (Lease.shift_jobId k) _ _ (fun _ => rfl) fun _ => rfl
  simp only [onHeartbeatUpdate, Db.updateLeases, updated]
  rfl

/-- The reaper's comparison does not see a skew that lease and tick have in common. -/
theorem expiredLeases_shift (now : Int) :
    expiredLeases (ctx.skewed k) (now + k) (db.shift k) =
      (expiredLeases ctx now db).map (Lease.shift k) := by
  simp only [expiredLeases, Db.shift, Table.map, List.filter_map]
  congr 1
  apply List.filter_congr
  intro l _
  simp only [Function.comp_apply, Lease.shift, Ctx.skewed, Int.add_lt_add_iff_right]
  rfl

theorem reaperTx_shift (now : Int) :
    reaperTx (ctx.skewed k) (now + k) (db.shift k) = (reaperTx ctx now db).shift k := by
  have ids : (expiredLeases (ctx.skewed k) (now + k) (db.shift k)).map Lease.jobId =
      (expiredLeases ctx now db).map Lease.jobId := by
    rw [expiredLeases_shift, List.map_map]
    rfl
  have deleted := deleteLeases_shift k db (p := fun l =>
    ((expiredLeases ctx now db).map Lease.jobId).contains l.jobId) fun _ => rfl
  unfold reaperTx
  simp only [ids, deleted]
  split <;> rfl

theorem submitTx_shift (key : String) (payload : Json) :
    submitTx (ctx.skewed k) key payload (db.shift k) =
      (submitTx ctx key payload db).map fun p => (p.1, p.2.shift k) := by
  have inserted : ∀ row, (db.shift k).insertJob row = (db.insertJob row).map (Db.shift k) := by
    intro row
    unfold Db.insertJob
    have jobs : (db.shift k).jobs = db.jobs := rfl
    rw [jobs]
    split
    · rfl
    · split <;> rfl
  unfold submitTx
  simp only [inserted, Ctx.skewed]
  generalize db.insertJob _ = tried
  cases tried <;> rfl

theorem heartbeatExpiry_skewed : heartbeatExpiry (ctx.skewed k) = heartbeatExpiry ctx + k := by
  simp only [heartbeatExpiry, Ctx.skewed, Int.add_assoc]

/-- Every handler step does the same on the skewed clock, `k` later. -/
theorem resume_shift (t : Task) (wsOf : WorkerId → Option SocketId) :
    (t.shift k).resume (ctx.skewed k) wsOf (db.shift k) = (t.resume ctx wsOf db).shift k := by
  cases t with
  | resultLookup ws workerId msg =>
    simp only [Task.shift, Task.resume, leaseOfWorker_shift]
    cases leaseOfWorker db msg.jobId workerId with
    | none => rfl
    | some l =>
      simp only [Option.map_some]
      have token : (l.shift k).token = l.token := rfl
      rw [token]
      split <;> rfl
  | resultTx ws workerId msg =>
    simp only [Task.shift, Task.resume, onResultTx_shift]
    have drop : (ctx.skewed k).dropAck = ctx.dropAck := rfl
    rw [drop]
    split
    · split <;> rfl
    · rfl
  | resultReAck ws msg =>
    have same : alreadyDone (db.shift k) msg.jobId = alreadyDone db msg.jobId := rfl
    simp only [Task.shift, Task.resume, same]
    split <;> rfl
  | failedTx msg =>
    simp only [Task.shift, Task.resume, onFailedTx_shift]
    rfl
  | heartbeatUpdate workerId msg newExpiry =>
    simp only [Task.shift, Task.resume, onHeartbeatUpdate_shift]
    rfl
  | dispatchTx workerId =>
    simp only [Task.shift, Task.resume, tryDispatchOneTx_shift]
    cases tryDispatchOneTx ctx workerId db with
    | error e => rfl
    | ok p =>
      obtain ⟨job, db'⟩ := p
      cases job <;> rfl
  | dispatchSend workerId job =>
    simp only [Task.shift, Task.resume]
    split <;> rfl
  | reaperTx now =>
    simp only [Task.shift, Task.resume, reaperTx_shift]
    rfl
  | submitLookup key payload =>
    have same : jobByKey (db.shift k) key = jobByKey db key := rfl
    simp only [Task.shift, Task.resume, same]
    split <;> rfl
  | submitTx key payload =>
    simp only [Task.shift, Task.resume, submitTx_shift]
    cases submitTx ctx key payload db with
    | ok p => rfl
    | error e => cases e <;> rfl
  | cancelLookup jobId =>
    have same : (db.shift k).jobs.lookup jobId = db.jobs.lookup jobId := rfl
    simp only [Task.shift, Task.resume, same]
    split
    · rfl
    · split <;> rfl
  | helloUpsert | submitWinner | cancelTx => rfl

theorem fail_shift (t : Task) (error : String) :
    (t.shift k).fail (db.shift k) error = (t.fail db error).shift k := by
  cases t <;> rfl

/-- A skewed coordinator reads a later expiry into its handlers, and nothing else. -/
theorem onMessage_shift (state : Option WorkerId) (ws : SocketId) (msg : WorkerToCoordMsg) :
    onMessage (ctx.skewed k) state ws msg = (onMessage ctx state ws msg).map (Task.shift k) := by
  cases msg with
  | jobHeartbeat msg =>
    simp only [onMessage, heartbeatExpiry_skewed, List.map_map]
    rfl
  | jobResult msg =>
    simp only [onMessage, List.map_map]
    rfl
  | workerHello | jobFailed | pong => rfl

end transactions

namespace Cluster

theorem spawn_shift (k : Int) (s : Cluster) (c : CoordinatorId) (next : List Task) :
    (s.shift k).spawn c (next.map (Task.shift k)) = (s.spawn c next).shift k := by
  simp only [spawn, shift, List.map_append, List.map_map]
  rfl

theorem finish_shift (k : Int) (s : Cluster) (i : Nat) (c : CoordinatorId) (o : Outcome) :
    (s.shift k).finish i c (o.shift k) = (s.finish i c o).shift k := by
  simp only [finish, shift, Outcome.shift, List.map_append, List.map_map, List.eraseIdx_map]
  rfl

/-- A cluster whose coordinators' clocks are all `k` ahead takes the same steps. -/
theorem step_shift (k : Int) (s : Cluster) (a : Action) :
    step (s.shift k) (a.skewed k) = (step s a).map (shift k) := by
  cases a with
  | post c key payload =>
    simp only [Action.skewed, step]
    cases validateSubmit key payload with
    | ok r => exact congrArg some (spawn_shift k s c [.submitLookup r.1 r.2])
    | error r => rfl
  | receive c i ctx =>
    have wire : (s.shift k).wire = s.wire := rfl
    simp only [Action.skewed, step, wire]
    cases s.wire[i]? with
    | none => rfl
    | some m =>
      simp only [onMessage_shift, spawn_shift]
      rfl
  | resume i ctx =>
    have task : (s.shift k).tasks[i]? = (s.tasks[i]?).map fun p => (p.1, p.2.shift k) := by
      simp only [shift, List.getElem?_map]
    simp only [Action.skewed, step, task]
    cases s.tasks[i]? with
    | none => rfl
    | some p =>
      have same : ({ ctx.skewed k with coordinatorId := p.1 } : Ctx) =
          ({ ctx with coordinatorId := p.1 } : Ctx).skewed k := rfl
      have db : (s.shift k).db = s.db.shift k := rfl
      have wsOf : (s.shift k).wsOf p.1 = s.wsOf p.1 := rfl
      simp only [Option.map_some, same, db, wsOf, resume_shift, finish_shift]
  | fail i error =>
    have task : (s.shift k).tasks[i]? = (s.tasks[i]?).map fun p => (p.1, p.2.shift k) := by
      simp only [shift, List.getElem?_map]
    simp only [Action.skewed, step, task]
    cases s.tasks[i]? with
    | none => rfl
    | some p =>
      have db : (s.shift k).db = s.db.shift k := rfl
      simp only [Option.map_some, db, fail_shift, finish_shift]
  | reaperTick c ctx =>
    have now : (ctx.skewed k).nowMs + (ctx.skewed k).skewMs = ctx.nowMs + ctx.skewMs + k := by
      simp only [Ctx.skewed, Int.add_assoc]
    simp only [Action.skewed, step, now]
    exact congrArg some (spawn_shift k s c [.reaperTx (ctx.nowMs + ctx.skewMs)])
  | delete c jobId => exact congrArg some (spawn_shift k s c [.cancelLookup jobId])
  | dispatchTick c workerId => exact congrArg some (spawn_shift k s c [.dispatchTx workerId])
  | crash c =>
    simp only [Action.skewed, step, Option.map_some, shift, List.filter_map]
    rfl
  | workerSend | deregister | skipTokens => rfl

/-- No lease, and no handler at work on an expiry or a tick: no clock has been read
into the state yet. -/
structure Unread (s : Cluster) : Prop where
  leases : s.db.leases.rows = []
  tasks : ∀ k, ∀ p ∈ s.tasks, p.2.shift k = p.2

/-- Where no clock has been read, a skew is not to be seen. -/
theorem Unread.shift {s : Cluster} (h : s.Unread) (k : Int) : s.shift k = s := by
  have leases : s.db.leases.map (Lease.shift k) (Lease.shift_jobId k) = s.db.leases := by
    apply Table.ext
    simp only [Table.map, h.leases, List.map_nil]
  have tasks : s.tasks.map (fun p => (p.1, p.2.shift k)) = s.tasks := by
    conv_rhs => rw [← List.map_id s.tasks]
    apply List.map_congr_left
    intro p hp
    rw [h.tasks k p hp]
    rfl
  simp only [Cluster.shift, Db.shift, leases, tasks]

structure SameButExpiry (k : Int) (s s' : Cluster) : Prop where
  db : SkewedBy k s.db s'.db
  sent : s'.sent = s.sent
  answers : s'.answers = s.answers

theorem shift_same (k : Int) (s : Cluster) : SameButExpiry k s (s.shift k) :=
  ⟨shift_skewedBy k s.db, rfl, rfl⟩

/-- The run on the skewed clocks is the run itself, shifted. -/
theorem run_shift {start s : Cluster} {es : List (Event Cluster Action)} (k : Int)
    (h : Run step start es s) : Run step (start.shift k)
      (es.map (Event.map (Cluster.shift k) (Action.skewed k))) (s.shift k) := by
  refine h.map ?_
  intro s a t taken
  rw [step_shift, taken]
  rfl

/-- A common clock skew changes nothing: two runs with the same schedule and the
same readings, in which the second coordinators' skews are `k` more throughout
(0 and `k`, say), have after every step the same tables, but for expiries that are
`k` later, the same messages and the same answers. -/
theorem common_skew {start s s' : Cluster} (unread : start.Unread) (k : Int)
    {es es' : List (Event Cluster Action)} (run : Run step start es s)
    (run' : Run step start es' s')
    (schedule : es'.map Event.action = es.map fun e => e.action.skewed k) :
    List.Forall₂ (fun e e' => SameButExpiry k e.after e'.after) es es' := by
  have shifted := run_shift k run
  rw [unread.shift k] at shifted
  have actions : es'.map Event.action =
      (es.map (Event.map (Cluster.shift k) (Action.skewed k))).map Event.action := by
    rw [schedule, List.map_map]
    rfl
  obtain ⟨same, _⟩ := run'.eq_of_actions shifted actions
  rw [same, List.forall₂_map_right_iff]
  exact List.forall₂_same.mpr fun e _ => shift_same k e.after

/-- `reissueRun` with every coordinator one hour behind: the same lease is reaped. -/
theorem common_skew_reissueRun : ∃ s s', exec step init reissueRun = some s ∧
    exec step init (reissueRun.map (Action.skewed (-3600000))) = some s' ∧
    List.Forall₂ (fun e e' => SameButExpiry (-3600000) e.after e'.after)
      (trace step init reissueRun)
      (trace step init (reissueRun.map (Action.skewed (-3600000)))) := by
  obtain ⟨s, hs, _⟩ : ∃ s, exec step init reissueRun = some s ∧ true = true := exec_any (by decide)
  obtain ⟨s', hs', _⟩ : ∃ s, exec step init (reissueRun.map (Action.skewed (-3600000))) = some s ∧
      true = true := exec_any (by decide)
  have unread : init.Unread := ⟨rfl, fun k p hp => by cases hp⟩
  have schedule : (trace step init (reissueRun.map (Action.skewed (-3600000)))).map Event.action =
      (trace step init reissueRun).map fun e => e.action.skewed (-3600000) := calc
    _ = reissueRun.map (Action.skewed (-3600000)) := trace_actions _ hs'
    _ = ((trace step init reissueRun).map Event.action).map (Action.skewed (-3600000)) := by
      rw [trace_actions _ hs]
    _ = _ := List.map_map
  exact ⟨s, s', hs, hs', common_skew unread _ (run_of_exec _ hs) (run_of_exec _ hs') schedule⟩

end Cluster

end Dispatcher
