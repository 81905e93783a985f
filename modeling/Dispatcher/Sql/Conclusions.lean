import Dispatcher.Proofs.FencingOrder
import Dispatcher.Sql.Dispatching

namespace Dispatcher
open Tables ReadCommitted

/-- What the transactions were started with: the results that came in, and the
jobs that a DELETE was about. -/
structure Inputs where
  result : WorkerId → JobResult → Prop
  cancel : JobId → Prop

/-- What the tables say about one job whenever no transaction is half committed. -/
structure JobView.Safe (src : Inputs) (j : JobId) (v : JobView) : Prop where
  decided : v.commits ≠ [] → ∃ s, v.status = some s ∧ s.terminal = true
  once : v.commits.length ≤ 1
  succeeded : v.status = some .succeeded → v.commits ≠ []
  result : v.result.isSome ↔ v.commits ≠ []
  leased : ∀ l, v.lease = some l → (l.workerId, l.token) ∈ v.ledger.grants ∧
    ∀ g ∈ v.ledger.grants, g.2 ≤ l.token
  accepted : ∀ c ∈ v.commits, c.accepted = true ∧ (c.workerId, c.fence) ∈ v.ledger.grants ∧
    (∀ g ∈ v.ledger.grants, g.2 ≤ c.fence) ∧
    ∃ msg, src.result c.workerId msg ∧ msg.jobId = j ∧ msg.token = c.fence ∧
      v.result = some msg.result

/-- The changes of a job's status that the code makes; to CANCELLED from anywhere. -/
inductive Edge (src : Inputs) (j : JobId) : Option JobStatus → Option JobStatus → Prop where
  | same : Edge src j s s
  | submitted : Edge src j none (some .pending)
  | dispatched : Edge src j (some .pending) (some .dispatched)
  | succeeded : Edge src j (some .dispatched) (some .succeeded)
  | failed : Edge src j (some .dispatched) (some .failed)
  | handedBack : Edge src j (some .dispatched) (some .pending)
  | cancelled (asked : src.cancel j) : Edge src j s (some .cancelled)

/-- What the commit of one transaction makes of a job. -/
structure Settles (src : Inputs) (j : JobId) (v v' : JobView) : Prop where
  safe : v'.Safe src j
  edge : Edge src j v.status v'.status
  kept : v.commits ≠ [] → v'.commits = v.commits ∧ v'.result = v.result

/-- A write that neither grants a lease nor accepts a result. -/
inductive Write.Mild (src : Inputs) (held : Lock → Prop) (db : Db) : Write → Prop where
  | insertJob {row : Job} (pending : row.status = .pending) (undecided : row.result = none) :
      Mild src held db (.insertJob row)
  | cancel {j : JobId} {patch : Db.JobPatch} (asked : src.cancel j)
      (status : patch.status = .cancelled) (result : patch.result = none) :
      Mild src held db (.patchJob j patch)
  | handBack {j : JobId} {patch : Db.JobPatch} (locked : held (.job j))
      (dispatched : db.statusOf j = some .dispatched)
      (status : patch.status = .pending ∨ patch.status = .failed) (result : patch.result = none) :
      Mild src held db (.patchJob j patch)
  | extendLease {j : JobId} {expiresAt : Int} : Mild src held db (.extendLease j expiresAt)
  | deleteLease {j : JobId} : Mild src held db (.deleteLease j)
  | terminate {j : JobId} {fence : Token} {atMs : Int} : Mild src held db (.terminate j fence atMs)
  | insertTransition {row : JobTransition} : Mild src held db (.insertTransition row)

theorem Write.Mild.stable {src : Inputs} {held held' : Lock → Prop} {db db' : Db} {w : Write}
    (h : w.Mild src held db) (grow : ∀ k, held k → held' k)
    (agree : ∀ k, held k → k.Agree db db') : w.Mild src held' db' := by
  cases h with
  | insertJob pending undecided => exact .insertJob pending undecided
  | cancel asked status result => exact .cancel asked status result
  | handBack locked dispatched status result =>
    exact .handBack (grow _ locked) ((agree _ locked).status.trans dispatched) status result
  | extendLease => exact .extendLease
  | deleteLease => exact .deleteLease
  | terminate => exact .terminate
  | insertTransition => exact .insertTransition

/-- One job, before a transaction and after some of its mild writes. -/
structure Calm (src : Inputs) (j : JobId) (v₀ v : JobView) : Prop where
  commits : v.commits = v₀.commits
  result : v.result = v₀.result
  grants : v.ledger.grants = v₀.ledger.grants
  lease : ∀ l, v.lease = some l →
    ∃ l₀, v₀.lease = some l₀ ∧ l₀.workerId = l.workerId ∧ l₀.token = l.token
  edge : Edge src j v₀.status v.status
  undecided : v.status = some .succeeded → v₀.status = some .succeeded
  dispatched : v.status = some .dispatched → v₀.status = some .dispatched

theorem Calm.refl {src : Inputs} {j : JobId} (v : JobView) : Calm src j v v :=
  ⟨rfl, rfl, rfl, fun l hl => ⟨l, hl, rfl, rfl⟩, .same, id, id⟩

theorem terminate_ledger (v : JobView) (fence : Token) (atMs : Int) :
    (v.history.map fun h => if h.fence = fence then h.terminate (fun _ => true) atMs else h).map
      (fun h => (h.workerId, h.fence)) = v.history.map fun h => (h.workerId, h.fence) := by
  rw [List.map_map]
  apply List.map_congr_left
  intro h _
  simp only [Function.comp_apply]
  split
  · obtain ⟨worker, same⟩ := LeaseHistory.terminate_grant (fun _ => true) atMs h
    rw [worker, same]
  · rfl

theorem Edge.of_none {src : Inputs} {j : JobId} {s : Option JobStatus} (h : Edge src j s none) :
    s = none := by
  cases h
  rfl

/-- An UPDATE that sets no result takes a job that is there to its status. -/
theorem Calm.patched {src : Inputs} {j : JobId} {v₀ v : JobView} {patch : Db.JobPatch}
    (h : Calm src j v₀ v) (result : patch.result = none)
    (edge : Edge src j v₀.status (some patch.status))
    (open_ : patch.status ≠ .succeeded ∧ patch.status ≠ .dispatched) :
    Calm src j v₀ { v with job := v.job.map patch.on } := by
  cases hj : v.job with
  | none =>
    have same : ({ v with job := Option.map patch.on none } : JobView) = v := by
      rw [Option.map_none, ← hj]
    rw [same]
    exact h
  | some r =>
    have status : ({ v with job := some (patch.on r) } : JobView).status = some patch.status := rfl
    have kept : ({ v with job := some (patch.on r) } : JobView).result = v₀.result := by
      rw [← h.result]
      simp [JobView.result, hj, Db.JobPatch.on, result]
    refine ⟨h.commits, kept, h.grants, h.lease, edge, ?_, ?_⟩
    · intro hs
      exact absurd (Option.some.inj hs) open_.1
    · intro hs
      exact absurd (Option.some.inj hs) open_.2

theorem Calm.on {src : Inputs} {held : Lock → Prop} {db : Db} {w : Write} {v : JobView}
    (h : Calm src w.subject (db.view w.subject) v) (hw : w.Mild src held db) :
    Calm src w.subject (db.view w.subject) (w.on v) := by
  cases hw with
  | @insertJob row pending undecided =>
    cases hj : v.job with
    | some r =>
      have same : (Write.insertJob row).on v = v := by
        rw [Write.on, hj, Option.getD_some, ← hj]
      rw [same]
      exact h
    | none =>
      have before : v.status = none := congrArg (Option.map Job.status) hj
      have absent : (db.view row.jobId).status = none := (before ▸ h.edge).of_none
      have status : ((Write.insertJob row).on v).status = some .pending := by
        simp [Write.on, JobView.status, hj, pending]
      have result : ((Write.insertJob row).on v).result = v.result := by
        simp [Write.on, JobView.result, hj, undecided]
      refine ⟨h.commits, result.trans h.result, h.grants, h.lease, ?_, ?_, ?_⟩
      · rw [status]
        change Edge src _ (db.view row.jobId).status _
        rw [absent]
        exact .submitted
      · intro hs
        cases status.symm.trans hs
      · intro hs
        cases status.symm.trans hs
  | @cancel j patch asked status result =>
    refine h.patched result ?_ (by simp [status])
    rw [status]
    exact .cancelled asked
  | @handBack j patch locked dispatched status result =>
    have was : (db.view (Write.patchJob j patch).subject).status = some .dispatched := dispatched
    refine h.patched result ?_ (by rcases status with status | status <;> simp [status])
    rw [was]
    rcases status with status | status <;> rw [status]
    · exact .handedBack
    · exact .failed
  | @extendLease j expiresAt =>
    refine { h with lease := ?_ }
    intro l hl
    obtain ⟨q, hq, rfl⟩ := Option.map_eq_some_iff.mp hl
    exact h.lease q hq
  | deleteLease => exact { h with lease := fun l hl => by cases hl }
  | @terminate j fence atMs =>
    refine { h with grants := ?_ }
    exact (terminate_ledger v fence atMs).trans h.grants
  | insertTransition => exact { h with }

/-- Mild writes leave every job calm. -/
theorem view_calm {src : Inputs} {held : Lock → Prop} {db : Db} {ws : List Write}
    (all : ∀ w ∈ ws, w.Mild src held db) (j : JobId) :
    Calm src j (db.view j) ((sqlMachine.view db ws).view j) := by
  induction ws using List.reverseRecOn with
  | nil => exact .refl _
  | append_singleton ws w ih =>
    have before := ih fun v hv => all v (List.mem_append_left _ hv)
    rw [view_snoc]
    split
    next named =>
      subst named
      exact before.on (all w (List.mem_append_right _ List.mem_cons_self))
    next => exact before

theorem Calm.settles {src : Inputs} {j : JobId} {v₀ v : JobView} (h : Calm src j v₀ v)
    (safe : v₀.Safe src j) : Settles src j v₀ v := by
  refine ⟨⟨?_, ?_, ?_, ?_, ?_, ?_⟩, h.edge, fun _ => ⟨h.commits, h.result⟩⟩
  · intro committed
    rw [h.commits] at committed
    obtain ⟨s, status, terminal⟩ := safe.decided committed
    have edge := h.edge
    rw [status] at edge
    generalize v.status = s' at edge
    cases edge with
    | same => exact ⟨s, rfl, terminal⟩
    | cancelled => exact ⟨_, rfl, rfl⟩
    | dispatched | succeeded | failed | handedBack => cases terminal
  · rw [h.commits]
    exact safe.once
  · intro status
    rw [h.commits]
    exact safe.succeeded (h.undecided status)
  · rw [h.commits, h.result]
    exact safe.result
  · intro l hl
    obtain ⟨l₀, hl₀, worker, token⟩ := h.lease l hl
    rw [h.grants, ← worker, ← token]
    exact safe.leased l₀ hl₀
  · rw [h.commits, h.grants, h.result]
    exact safe.accepted

def JobResult.accepting (ctx : Ctx) (msg : JobResult) : Write :=
  .patchJob msg.jobId ⟨.succeeded, some msg.result, ctx.nowMs⟩

def JobResult.attempt (ctx : Ctx) (workerId : WorkerId) (msg : JobResult) : CommitAttempt :=
  ⟨msg.jobId, true, msg.token, workerId, ctx.laterMs⟩

structure Named (held : Lock → Prop) (db : Db) (workerId : WorkerId) (msg : JobResult) : Prop where
  locked : held (.lease msg.jobId)
  holds : db.holds msg.jobId workerId msg.token = true

theorem Named.stable {held held' : Lock → Prop} {db db' : Db} {workerId : WorkerId}
    {msg : JobResult} (h : Named held db workerId msg) (grow : ∀ k, held k → held' k)
    (agree : ∀ k, held k → k.Agree db db') : Named held' db' workerId msg := by
  refine ⟨grow _ h.locked, ?_⟩
  have same : db'.leases.lookup msg.jobId = db.leases.lookup msg.jobId := agree _ h.locked
  rw [Db.holds, same]
  exact h.holds

/-- The writes of `onResult` up to its INSERT into CommitAttempts. -/
structure Accepting (held : Lock → Prop) (db : Db) (ctx : Ctx) (workerId : WorkerId)
    (msg : JobResult) (ws : List Write) : Prop where
  named : Named held db workerId msg
  locked : held (.job msg.jobId)
  dispatched : db.statusOf msg.jobId = some .dispatched
  deleted : .deleteLease msg.jobId ∈ ws
  patched : msg.accepting ctx ∈ ws
  only : ∀ w ∈ ws, w = .deleteLease msg.jobId ∨ w = msg.accepting ctx

theorem Accepting.stable {held held' : Lock → Prop} {db db' : Db} {ctx : Ctx} {workerId : WorkerId}
    {msg : JobResult} {ws : List Write} (h : Accepting held db ctx workerId msg ws)
    (grow : ∀ k, held k → held' k) (agree : ∀ k, held k → k.Agree db db') :
    Accepting held' db' ctx workerId msg ws :=
  ⟨h.named.stable grow agree, grow _ h.locked, (agree _ h.locked).status.trans h.dispatched,
    h.deleted, h.patched, h.only⟩

/-- What a list of these two writes does to the job. -/
theorem view_accepting {ctx : Ctx} {msg : JobResult} {ws : List Write} (db : Db)
    (only : ∀ w ∈ ws, w = .deleteLease msg.jobId ∨ w = msg.accepting ctx) :
    (sqlMachine.view db ws).view msg.jobId =
      { db.view msg.jobId with
        job := ((sqlMachine.view db ws).view msg.jobId).job
        lease := ((sqlMachine.view db ws).view msg.jobId).lease } ∧
    (.deleteLease msg.jobId ∈ ws → ((sqlMachine.view db ws).view msg.jobId).lease = none) ∧
    (((sqlMachine.view db ws).view msg.jobId).job = (db.view msg.jobId).job ∧
        msg.accepting ctx ∉ ws ∨
      ((sqlMachine.view db ws).view msg.jobId).job =
        (db.view msg.jobId).job.map (Db.JobPatch.on ⟨.succeeded, some msg.result, ctx.nowMs⟩)) := by
  induction ws using List.reverseRecOn with
  | nil => exact ⟨rfl, fun h => (by cases h), .inl ⟨rfl, by simp⟩⟩
  | append_singleton ws w ih =>
    obtain ⟨rest, cleared, job⟩ := ih fun v hv => only v (List.mem_append_left _ hv)
    rcases only w (List.mem_append_right _ List.mem_cons_self) with rfl | rfl
    · have step : (sqlMachine.view db (ws ++ [.deleteLease msg.jobId])).view msg.jobId =
          Write.on ((sqlMachine.view db ws).view msg.jobId) (.deleteLease msg.jobId) := by
        rw [view_snoc]
        exact if_pos rfl
      rw [step]
      refine ⟨?_, fun _ => rfl, ?_⟩
      · rw [rest]
        rfl
      · rcases job with ⟨same, absent⟩ | patched
        · refine .inl ⟨same, ?_⟩
          simpa [JobResult.accepting] using absent
        · exact .inr patched
    · have step : (sqlMachine.view db (ws ++ [msg.accepting ctx])).view msg.jobId =
          Write.on ((sqlMachine.view db ws).view msg.jobId) (msg.accepting ctx) := by
        rw [view_snoc]
        exact if_pos rfl
      rw [step]
      refine ⟨?_, ?_, .inr ?_⟩
      · rw [rest]
        rfl
      · intro deleted
        refine cleared ?_
        simpa [JobResult.accepting] using deleted
      · change Option.map _ ((sqlMachine.view db ws).view msg.jobId).job = _
        rcases job with ⟨same, _⟩ | patched
        · rw [same]
        · rw [patched, Option.map_map]
          congr 1

/-- A write of the rest of `onResult`, to the logs. -/
inductive Write.Logs : Write → Prop where
  | terminate {j : JobId} {fence : Token} {atMs : Int} : Logs (.terminate j fence atMs)
  | insertTransition {row : JobTransition} : Logs (.insertTransition row)

/-- Two views of a job that differ in nothing but the logs. -/
structure JobView.SameRows (v v' : JobView) : Prop where
  job : v'.job = v.job
  lease : v'.lease = v.lease
  commits : v'.commits = v.commits
  grants : v'.ledger.grants = v.ledger.grants

theorem view_logs_only {db : Db} {ws : List Write} (all : ∀ w ∈ ws, w.Logs) (j : JobId) :
    (db.view j).SameRows ((sqlMachine.view db ws).view j) := by
  induction ws using List.reverseRecOn with
  | nil => exact ⟨rfl, rfl, rfl, rfl⟩
  | append_singleton ws w ih =>
    have before := ih fun v hv => all v (List.mem_append_left _ hv)
    rw [view_snoc]
    split
    · cases all w (List.mem_append_right _ List.mem_cons_self) with
      | terminate =>
        exact ⟨before.job, before.lease, before.commits,
          (terminate_ledger _ _ _).trans before.grants⟩
      | insertTransition => exact ⟨before.job, before.lease, before.commits, before.grants⟩
    · exact before

/-- Further writes to the logs settle nothing else. -/
theorem Settles.logged {src : Inputs} {j : JobId} {v v' v'' : JobView} (h : Settles src j v v')
    (same : v'.SameRows v'') : Settles src j v v'' := by
  have status : v''.status = v'.status := congrArg (Option.map Job.status) same.job
  have result : v''.result = v'.result := congrArg (Option.bind · Job.result) same.job
  obtain ⟨⟨decided, once, succeeded, resulted, leased, accepted⟩, edge, kept⟩ := h
  refine ⟨⟨?_, ?_, ?_, ?_, ?_, ?_⟩, ?_, ?_⟩
  · rwa [same.commits, status]
  · rwa [same.commits]
  · rwa [same.commits, status]
  · rwa [same.commits, result]
  · rwa [same.lease, same.grants]
  · rwa [same.commits, same.grants, result]
  · rwa [status]
  · rwa [same.commits, result]

/-- The writes of a finished `onResult` that accepted. -/
structure Accepted (src : Inputs) (held : Lock → Prop) (db : Db) (ws : List Write) : Prop where
  accepted : ∃ ctx workerId msg pre rest, src.result workerId msg ∧
    Accepting held db ctx workerId msg pre ∧
    ws = pre ++ .insertCommit (msg.attempt ctx workerId) :: rest ∧ ∀ w ∈ rest, w.Logs

theorem Accepted.stable {src : Inputs} {held held' : Lock → Prop} {db db' : Db} {ws : List Write}
    (h : Accepted src held db ws) (grow : ∀ k, held k → held' k)
    (agree : ∀ k, held k → k.Agree db db') : Accepted src held' db' ws := by
  obtain ⟨ctx, workerId, msg, pre, rest, came, accepting, written, logs⟩ := h.accepted
  exact ⟨ctx, workerId, msg, pre, rest, came, accepting.stable grow agree, written, logs⟩

/-- An accepted result concludes its job under the newest token. -/
theorem Accepting.settles {src : Inputs} {held : Lock → Prop} {db : Db} {ctx : Ctx}
    {workerId : WorkerId} {msg : JobResult} {ws : List Write}
    (h : Accepting held db ctx workerId msg ws) (came : src.result workerId msg)
    (safe : (db.view msg.jobId).Safe src msg.jobId) :
    Settles src msg.jobId (db.view msg.jobId)
      ((sqlMachine.view db (ws ++ [.insertCommit (msg.attempt ctx workerId)])).view msg.jobId) := by
  have step : (sqlMachine.view db (ws ++ [.insertCommit (msg.attempt ctx workerId)])).view msg.jobId =
      Write.on ((sqlMachine.view db ws).view msg.jobId) (.insertCommit (msg.attempt ctx workerId)) := by
    rw [view_snoc]
    exact if_pos rfl
  obtain ⟨rest, cleared, job⟩ := view_accepting db h.only
  have unleased := cleared h.deleted
  have patched := job.resolve_left fun absent => absent.2 h.patched
  obtain ⟨r, hr, status⟩ := Option.map_eq_some_iff.mp h.dispatched
  have there : (db.view msg.jobId).job = some r := hr
  rw [unleased, patched, there] at rest
  obtain ⟨l, hl, named⟩ := (Option.any_eq_true _ _).mp h.named.holds
  have held : (db.view msg.jobId).lease = some l := hl
  simp only [Bool.and_eq_true, decide_eq_true_eq] at named
  obtain ⟨granted, newest⟩ := safe.leased l held
  rw [named.1, named.2] at granted
  rw [named.2] at newest
  have dispatched : (db.view msg.jobId).status = some .dispatched := h.dispatched
  have uncommitted : (db.view msg.jobId).commits = [] := by
    by_contra committed
    obtain ⟨s, hs, terminal⟩ := safe.decided committed
    rw [dispatched] at hs
    cases hs
    cases terminal
  rw [step, rest]
  refine ⟨⟨?_, ?_, ?_, ?_, ?_, ?_⟩, ?_, fun committed => absurd uncommitted committed⟩
  · intro _
    exact ⟨.succeeded, rfl, rfl⟩
  · simp [Write.on, uncommitted]
  · simp [Write.on]
  · simp [Write.on, JobView.result, Db.JobPatch.on]
  · intro l' hl'
    cases hl'
  · intro c hc
    have attempt : c = msg.attempt ctx workerId := by simpa [Write.on, uncommitted] using hc
    rw [attempt]
    exact ⟨rfl, granted, newest, msg, came, rfl, rfl, rfl⟩
  · rw [dispatched]
    exact .succeeded

theorem Accepted.settles {src : Inputs} {held : Lock → Prop} {db : Db} {ws : List Write}
    (h : Accepted src held db ws) (safe : ∀ j, (db.view j).Safe src j) (j : JobId) :
    Settles src j (db.view j) ((sqlMachine.view db ws).view j) := by
  obtain ⟨ctx, workerId, msg, pre, rest, came, accepting, rfl, logs⟩ := h.accepted
  rw [show pre ++ Write.insertCommit (msg.attempt ctx workerId) :: rest =
    pre ++ [.insertCommit (msg.attempt ctx workerId)] ++ rest by simp, Machine.view_append]
  refine Settles.logged ?_ (view_logs_only logs j)
  by_cases same : msg.jobId = j
  · subst same
    exact accepting.settles came (safe _)
  · have other : ∀ w ∈ pre ++ [.insertCommit (msg.attempt ctx workerId)], w.subject ≠ j := by
      intro w hw
      rcases List.mem_append.mp hw with hw | hw
      · rcases accepting.only w hw with rfl | rfl <;> exact same
      · cases List.mem_singleton.mp hw
        exact same
    rw [view_untouched other]
    exact (Calm.refl _).settles (safe j)

/-- The job has no lease, and the key of the new one is held. -/
structure Unleased (held : Lock → Prop) (db : Db) (j : JobId) : Prop where
  locked : held (.lease j)
  absent : db.leases.lookup j = none

theorem Unleased.stable {held held' : Lock → Prop} {db db' : Db} {j : JobId}
    (h : Unleased held db j) (grow : ∀ k, held k → held' k)
    (agree : ∀ k, held k → k.Agree db db') : Unleased held' db' j :=
  ⟨grow _ h.locked, (agree _ h.locked).trans h.absent⟩

/-- A new lease goes to a job that is not concluded. -/
theorem Grant.settles {src : Inputs} {db : Db} {e : Env} {g : Grant}
    (unleased : db.leases.lookup g.jobId = none) (pending : db.statusOf g.jobId = some .pending)
    (newest : Newest db e g.token) (safe : ∀ j, (db.view j).Safe src j) (j : JobId) :
    Settles src j (db.view j) ((sqlMachine.view db g.writes).view j) := by
  rw [view_dispatched g unleased]
  split
  next named =>
    subst named
    have was : (db.view g.jobId).status = some .pending := pending
    obtain ⟨r, hr, _⟩ := Option.map_eq_some_iff.mp pending
    have there : (db.view g.jobId).job = some r := hr
    have uncommitted : (db.view g.jobId).commits = [] := by
      by_contra committed
      obtain ⟨s, hs, terminal⟩ := (safe g.jobId).decided committed
      rw [was] at hs
      cases hs
      cases terminal
    have unresolved : r.result = none := by
      have nothing := (safe g.jobId).result.not.mpr (by simp [uncommitted])
      simpa [JobView.result, there] using nothing
    have below : ∀ h ∈ (db.view g.jobId).ledger.grants, h.2 < g.token := by
      intro h hh
      obtain ⟨row, hrow, rfl⟩ := List.mem_map.mp hh
      have inside : row ∈ db.leaseHistory := List.mem_of_mem_filter hrow
      exact newest.1 _ (List.mem_map_of_mem inside)
    refine ⟨⟨?_, ?_, ?_, ?_, ?_, ?_⟩, ?_, ?_⟩
    · intro committed
      exact absurd uncommitted committed
    · simp [JobEvent.apply, uncommitted]
    · intro status
      simp [JobEvent.apply, JobView.status, there, Db.JobPatch.on] at status
    · simp [JobEvent.apply, JobView.result, there, Db.JobPatch.on, uncommitted, unresolved]
    · intro l hl
      cases hl
      simp only [JobEvent.apply, JobView.ledger, List.map_append, List.mem_append, List.map_cons,
        List.map_nil, List.mem_singleton]
      refine ⟨.inr trivial, ?_⟩
      rintro h (hh | rfl)
      · exact Nat.le_of_lt (below h hh)
      · exact Nat.le_refl _
    · intro c hc
      simp [JobEvent.apply, uncommitted] at hc
    · rw [was]
      have now : (((JobEvent.dispatched { g.ctx with pgClockUs := g.issuedAtMs } g.workerId g.token).apply
          g.jobId (db.view g.jobId)).status) = some .dispatched := by
        simp [JobEvent.apply, JobView.status, there, Db.JobPatch.on]
      rw [now]
      exact .dispatched
    · intro committed
      exact absurd uncommitted committed
  next => exact (Calm.refl _).settles (safe j)

inductive Concluded (src : Inputs) (held : Lock → Prop) (db : Db) (ws : List Write) : Prop where
  | mild (all : ∀ w ∈ ws, w.Mild src held db)
  | dispatched (g : Grant) (locked : held (.job g.jobId))
      (pending : db.statusOf g.jobId = some .pending) (unleased : Unleased held db g.jobId)
      (written : ws = g.writes)
  | accepted (h : Accepted src held db ws)

theorem Concluded.stable {src : Inputs} {held held' : Lock → Prop} {db db' : Db} {ws : List Write}
    (h : Concluded src held db ws) (grow : ∀ k, held k → held' k)
    (agree : ∀ k, held k → k.Agree db db') : Concluded src held' db' ws := by
  cases h with
  | mild all => exact .mild fun w hw => (all w hw).stable grow agree
  | dispatched g locked pending unleased written =>
    exact .dispatched g (grow _ locked) ((agree _ locked).status.trans pending)
      (unleased.stable grow agree) written
  | accepted h => exact .accepted (h.stable grow agree)

/-- The commit of a finished transaction settles every job. -/
theorem Concluded.settles {src : Inputs} {held : Lock → Prop} {db : Db} {e : Env} {ws : List Write}
    (h : Concluded src held db ws) (fresh : ∀ g ∈ newGrants ws, Newest db e g.2.1)
    (safe : ∀ j, (db.view j).Safe src j) (j : JobId) :
    Settles src j (db.view j) ((sqlMachine.view db ws).view j) := by
  cases h with
  | mild all => exact (view_calm all j).settles (safe j)
  | dispatched g locked pending unleased written =>
    subst written
    have newest : Newest db e g.token :=
      fresh (g.jobId, g.token, g.issuedAtMs) (by simp [newGrants, Grant.writes, Write.grant, Grant.history])
    exact g.settles unleased.absent pending newest safe j
  | accepted h => exact h.settles safe j

end Dispatcher
