import Dispatcher.Sql.Conclusions

namespace Dispatcher
open Tables ReadCommitted

/-- What a transaction was started with is among the inputs. -/
def Prog.From (src : Inputs) : Prog → Prop
  | resultLease _ workerId msg => src.result workerId msg
  | cancelJob _ j => src.cancel j
  | _ => True

/-- What holds at each program point, by the rows that the statement there has
taken and by what the transaction has written. -/
def Prog.Stands (src : Inputs) (held : Lock → Prop) (db : Db) (taken : List Row) (ws : List Write) :
    Prog → Prop
  | submitJob .. | submitTransition .. | cancelTransition .. | dispatchSelect .. | failedLease ..
  | failedJob .. | failedHistory .. | failedTransition .. | heartbeatLease .. | reaperSelect ..
  | reaperLeases .. | reaperJobs .. | reaperHistory .. | reaperTransitions .. =>
    ∀ w ∈ ws, w.Mild src held db
  | cancelJob _ j => src.cancel j ∧ ∀ w ∈ ws, w.Mild src held db
  | dispatchLock .. | dispatchRead .. | dispatchClock .. | dispatchToken .. => True
  | dispatchLease g => taken ≠ [] → Unleased held db g.jobId
  | dispatchStatus g | dispatchHistory g | dispatchTransition g => Unleased held db g.jobId
  | resultLease _ workerId msg => src.result workerId msg ∧ (∀ w ∈ ws, w = .deleteLease msg.jobId) ∧
    (taken ≠ [] → Named held db workerId msg ∧ .deleteLease msg.jobId ∈ ws)
  | resultJob ctx workerId msg => src.result workerId msg ∧ Named held db workerId msg ∧
    .deleteLease msg.jobId ∈ ws ∧ (taken = [] → ∀ w ∈ ws, w = .deleteLease msg.jobId) ∧
    (taken ≠ [] → Accepting held db ctx workerId msg ws)
  | resultCommit ctx workerId msg => src.result workerId msg ∧
    ∃ pre, Accepting held db ctx workerId msg pre ∧
      ws = pre ++ taken.map fun _ => .insertCommit (msg.attempt ctx workerId)
  | resultHistory .. | resultTransition .. => Accepted src held db ws
  | done => Concluded src held db ws

def takenRows (x : SqlTxn) : List Row := (x.cursor.map Cursor.affected).getD []

variable {src : Inputs} {held held' : Lock → Prop} {db db' : Db}

theorem Prog.Stands.stable {p : Prog} {taken : List Row} {ws : List Write}
    (h : p.Stands src held db taken ws) (grow : ∀ k, held k → held' k)
    (agree : ∀ k, held k → k.Agree db db') : p.Stands src held' db' taken ws := by
  cases p with
  | cancelJob ctx j => exact ⟨h.1, fun w hw => (h.2 w hw).stable grow agree⟩
  | dispatchLock | dispatchRead | dispatchClock | dispatchToken => trivial
  | dispatchLease g => exact fun took => (h took).stable grow agree
  | dispatchStatus | dispatchHistory | dispatchTransition => exact Unleased.stable h grow agree
  | resultLease ctx workerId msg =>
    exact ⟨h.1, h.2.1, fun took => ⟨(h.2.2 took).1.stable grow agree, (h.2.2 took).2⟩⟩
  | resultJob ctx workerId msg =>
    obtain ⟨came, named, deleted, silent, accepting⟩ := h
    exact ⟨came, named.stable grow agree, deleted, silent,
      fun took => (accepting took).stable grow agree⟩
  | resultCommit ctx workerId msg =>
    obtain ⟨came, pre, accepting, written⟩ := h
    exact ⟨came, pre, accepting.stable grow agree, written⟩
  | resultHistory | resultTransition => exact Accepted.stable h grow agree
  | done => exact Concluded.stable h grow agree
  | _ => exact fun w hw => Write.Mild.stable (h w hw) grow agree

/-- A job that a transaction with mild writes finds DISPATCHED was so before it. -/
theorem mild_dispatched {ws : List Write} {p : Job → Bool} {patch : Db.JobPatch} {r : Row}
    (mild : ∀ w ∈ ws, w.Mild src held db)
    (recheck : (Sql.updateJobs p patch).recheck (sqlMachine.view db ws) r = true)
    (only : ∀ q, p q = true → q.status = .dispatched) :
    ∃ j, r = .job j ∧ db.statusOf j = some .dispatched := by
  obtain ⟨q, rfl, hq, found⟩ := updateJobs_recheck recheck
  refine ⟨q.jobId, rfl, (view_calm mild q.jobId).dispatched ?_⟩
  have status : (sqlMachine.view db ws).statusOf q.jobId = some q.status :=
    congrArg (Option.map Job.status) hq
  exact status.trans (congrArg some (only q found))

/-- The statement of `onFailed` or of the reaper that hands a job back. -/
theorem handBack_mild {ws : List Write} {p : Job → Bool} {patch : Db.JobPatch} {r : Row}
    (mild : ∀ w ∈ ws, w.Mild src held db)
    (recheck : (Sql.updateJobs p patch).recheck (sqlMachine.view db ws) r = true)
    (only : ∀ q, p q = true → q.status = .dispatched)
    (status : patch.status = .pending ∨ patch.status = .failed) (result : patch.result = none) :
    ∀ w ∈ (Sql.updateJobs p patch).writes r,
      w.Mild src (fun k => k ∈ (Sql.updateJobs p patch).locks r ∨ held k) db := by
  intro w hw
  obtain ⟨j, rfl, dispatched⟩ := mild_dispatched mild recheck only
  cases List.mem_singleton.mp hw
  exact .handBack (.inl List.mem_cons_self) dispatched status result

theorem mild_append {ws vs : List Write} {ks : List Lock} (mild : ∀ w ∈ ws, w.Mild src held db)
    (more : ∀ w ∈ vs, w.Mild src (fun k => k ∈ ks ∨ held k) db) :
    ∀ w ∈ ws ++ vs, w.Mild src (fun k => k ∈ ks ∨ held k) db := by
  intro w hw
  rcases List.mem_append.mp hw with hw | hw
  · exact (mild w hw).stable (fun _ => .inr) fun k _ => sqlProtection.refl k db
  · exact more w hw

variable {st : Sql.Stmt} {next : List Row → Prog} {r : Row} {rows rest affected : List Row}

/-- The DELETE of `onResult` finds the lease that the message names. -/
theorem named_taken {workerId : WorkerId} {msg : JobResult} {ws : List Write}
    (only : ∀ w ∈ ws, w = .deleteLease msg.jobId)
    (recheck : (Sql.deleteLeases fun l =>
      l.jobId = msg.jobId && l.workerId = workerId && l.token = msg.token).recheck
        (sqlMachine.view db ws) r = true) :
    ∃ token, r = .lease msg.jobId token ∧ db.holds msg.jobId workerId msg.token = true := by
  obtain ⟨l, rfl, hl, found⟩ := deleteLeases_recheck recheck
  simp only [Bool.and_eq_true, decide_eq_true_eq] at found
  obtain ⟨⟨same, worker⟩, token⟩ := found
  rw [same] at hl
  have silent : ws = [] := by
    by_contra wrote
    obtain ⟨w, hw⟩ := List.exists_mem_of_ne_nil ws wrote
    have deleted : .deleteLease msg.jobId ∈ ws := only w hw ▸ hw
    have gone : ((sqlMachine.view db ws).view msg.jobId).lease = none :=
      view_cleared deleted fun row hr => by cases only _ hr
    have there : ((sqlMachine.view db ws).view msg.jobId).lease = some l := hl
    rw [there] at gone
    cases gone
  rw [silent] at hl
  refine ⟨l.token, by rw [same], ?_⟩
  simp only [sqlMachine, Machine.view_nil] at hl
  simp [Db.holds, hl, worker, token]

/-- The UPDATE of `onResult` finds a job that was DISPATCHED before the transaction. -/
theorem dispatched_taken {ctx : Ctx} {msg : JobResult} {ws : List Write}
    (only : ∀ w ∈ ws, w = .deleteLease msg.jobId ∨ w = msg.accepting ctx) {patch : Db.JobPatch}
    (recheck : (Sql.updateJobs (fun q => q.jobId = msg.jobId && q.status = .dispatched) patch).recheck
      (sqlMachine.view db ws) r = true) :
    r = .job msg.jobId ∧ db.statusOf msg.jobId = some .dispatched := by
  obtain ⟨q, rfl, hq, found⟩ := updateJobs_recheck recheck
  simp only [Bool.and_eq_true, decide_eq_true_eq] at found
  obtain ⟨same, status⟩ := found
  rw [same] at hq
  have there : ((sqlMachine.view db ws).view msg.jobId).job = some q := hq
  refine ⟨by rw [same], ?_⟩
  obtain ⟨_, _, ⟨kept, _⟩ | patched⟩ := view_accepting db only
  · have before : db.jobs.lookup msg.jobId = some q := kept.symm.trans there
    simp [Db.statusOf, before, status]
  · rw [there] at patched
    obtain ⟨q', _, hp⟩ := Option.map_eq_some_iff.mp patched.symm
    rw [← hp] at status
    cases status

theorem Accepted.log {ws vs : List Write} (h : Accepted src held db ws) (logs : ∀ w ∈ vs, w.Logs) :
    Accepted src held db (ws ++ vs) := by
  obtain ⟨ctx, workerId, msg, pre, rest, came, accepting, rfl, before⟩ := h.accepted
  refine ⟨ctx, workerId, msg, pre, rest ++ vs, came, accepting, by simp, ?_⟩
  intro w hw
  exact (List.mem_append.mp hw).elim (before w) (logs w)

/-- A row that a statement takes. -/
theorem Prog.Stands.taken {p : Prog} {taken : List Row} {ws : List Write}
    (h : p.Stands src held db taken ws) (cmd : p.code = .sql st next)
    (recheck : st.recheck (sqlMachine.view db ws) r = true)
    (clean : st.violates (sqlMachine.view db ws) r = false)
    (fresh : ∀ g, p = .dispatchLease g → ws = []) :
    p.Stands src (fun k => k ∈ st.locks r ∨ held k) db (taken ++ [r]) (ws ++ st.writes r) := by
  have grow : ∀ k, held k → k ∈ st.locks r ∨ held k := fun _ => .inr
  have same : ∀ k, held k → k.Agree db db := fun k _ => sqlProtection.refl k db
  cases p with
  | dispatchLock => trivial
  | dispatchRead | dispatchClock | dispatchToken | done => cases cmd
  | submitJob ctx key payload =>
    cases cmd
    refine mild_append h fun w hw => ?_
    cases List.mem_singleton.mp hw
    exact .insertJob rfl rfl
  | submitTransition | cancelTransition | failedTransition =>
    cases cmd
    refine mild_append h fun w hw => ?_
    cases List.mem_singleton.mp hw
    exact .insertTransition
  | cancelJob ctx j =>
    cases cmd
    refine ⟨h.1, mild_append h.2 fun w hw => ?_⟩
    obtain ⟨i, rfl, rfl⟩ := Sql.mem_updateJobs hw
    obtain ⟨q, named, _, found⟩ := updateJobs_recheck recheck
    cases named
    rw [of_decide_eq_true found]
    exact .cancel h.1 rfl rfl
  | dispatchSelect | reaperSelect =>
    cases cmd
    exact mild_append h fun w hw => by cases hw
  | failedLease | reaperLeases =>
    cases cmd
    refine mild_append h fun w hw => ?_
    obtain ⟨j, token, rfl, rfl⟩ := Sql.mem_deleteLeases hw
    exact .deleteLease
  | failedJob ctx msg =>
    cases cmd
    refine mild_append h (handBack_mild h recheck (by simp) ?_ rfl)
    cases msg.temporary <;> simp
  | reaperJobs ctx ids =>
    cases cmd
    exact mild_append h (handBack_mild h recheck (by simp) (.inl rfl) rfl)
  | failedHistory | reaperHistory =>
    cases cmd
    refine mild_append h fun w hw => ?_
    obtain ⟨j, fence, rfl, rfl⟩ := Sql.mem_terminateHistory hw
    exact .terminate
  | reaperTransitions ctx ids =>
    cases cmd
    refine mild_append h fun w hw => ?_
    obtain ⟨j, _, rfl⟩ := List.mem_map.mp hw
    exact .insertTransition
  | heartbeatLease =>
    cases cmd
    refine mild_append h fun w hw => ?_
    obtain ⟨j, token, rfl, rfl⟩ := Sql.mem_updateLeases hw
    exact .extendLease
  | dispatchLease g =>
    cases cmd
    rw [fresh g rfl] at clean
    intro _
    refine ⟨.inl List.mem_cons_self, ?_⟩
    simp only [Sql.insertLease, Machine.view_nil, Bool.or_eq_false_iff] at clean
    simpa [Grant.lease] using clean.1
  | dispatchStatus | dispatchHistory | dispatchTransition => exact Unleased.stable h grow same
  | resultLease ctx workerId msg =>
    cases cmd
    obtain ⟨came, only, _⟩ := h
    obtain ⟨token, rfl, holds⟩ := named_taken only recheck
    refine ⟨came, ?_, fun _ => ⟨⟨.inl List.mem_cons_self, holds⟩, ?_⟩⟩
    · intro w hw
      exact (List.mem_append.mp hw).elim (only w) List.mem_singleton.mp
    · exact List.mem_append_right _ List.mem_cons_self
  | resultJob ctx workerId msg =>
    cases cmd
    obtain ⟨came, named, deleted, silent, accepting⟩ := h
    have only : ∀ w ∈ ws, w = .deleteLease msg.jobId ∨ w = msg.accepting ctx := by
      intro w hw
      by_cases none : taken = []
      · exact .inl (silent none w hw)
      · exact (accepting none).only w hw
    obtain ⟨rfl, dispatched⟩ := dispatched_taken only recheck
    have named := named.stable grow same
    refine ⟨came, named, List.mem_append_left _ deleted, by simp, fun _ => ?_⟩
    refine ⟨named, .inl List.mem_cons_self, dispatched, List.mem_append_left _ deleted,
      List.mem_append_right _ List.mem_cons_self, ?_⟩
    intro w hw
    exact (List.mem_append.mp hw).elim (only w) fun hw => .inr (List.mem_singleton.mp hw)
  | resultCommit ctx workerId msg =>
    cases cmd
    obtain ⟨came, pre, accepting, rfl⟩ := h
    refine ⟨came, pre, accepting.stable grow same, ?_⟩
    simp [Sql.insert, JobResult.attempt]
  | resultHistory ctx j =>
    cases cmd
    refine (Accepted.stable h grow same).log fun w hw => ?_
    obtain ⟨j, fence, rfl, rfl⟩ := Sql.mem_terminateHistory hw
    exact .terminate
  | resultTransition ctx j =>
    cases cmd
    refine (Accepted.stable h grow same).log fun w hw => ?_
    cases List.mem_singleton.mp hw
    exact .insertTransition

/-- Where a dispatch goes from its reads. -/
theorem stands_reads {p q : Prog} {e e' : Env} {ws : List Write} (read : p.Reads e e' q) :
    q.Stands src held db [] ws := by
  cases read with
  | clockFirst | tokenFirst => trivial
  | clock | token => exact fun took => absurd rfl took

/-- `onResult` goes on only after statements that found their row. -/
theorem found_rows {p : Prog} (cmd : p.code = .sql st next) {ctx : Ctx} {workerId : WorkerId}
    {msg : JobResult}
    (goes : next rows = .resultJob ctx workerId msg ∨ next rows = .resultCommit ctx workerId msg) :
    rows ≠ [] := by
  rintro rfl
  cases p with
  | dispatchRead | dispatchClock | dispatchToken | done => cases cmd
  | failedHistory ctx msg =>
    cases cmd
    cases ht : msg.temporary <;> simp [ht] at goes
  | _ =>
    cases cmd
    rcases goes with goes | goes <;> cases goes

/-- The end of a statement. -/
theorem Prog.Stands.closed {p q : Prog} {ws : List Write} (h : p.Stands src held db rows ws)
    (led : p.Leads rows q)
    (dispatched : ∀ g, p = .dispatchTransition g →
      held (.job g.jobId) ∧ db.statusOf g.jobId = some .pending ∧ ws = g.writes)
    (leased : ∀ g, p = .dispatchLease g → rows ≠ [])
    (recorded : ∀ ctx workerId msg, p = .resultCommit ctx workerId msg → rows = [.new])
    (found : ∀ ctx workerId msg, q = .resultJob ctx workerId msg ∨ q = .resultCommit ctx workerId msg →
      rows ≠ []) : q.Stands src held db [] ws := by
  have deleted : ∀ {j : JobId}, (∀ w ∈ ws, w = .deleteLease j) → ∀ w ∈ ws, w.Mild src held db := by
    intro j only w hw
    rw [only w hw]
    exact .deleteLease
  cases led with
  | submitTransition | cancelTransition | queueEmpty | requeued | failedTransition | heartbeatLease
  | nothingExpired | reaperTransitions => exact .mild h
  | cancelJob => exact h.2
  | selected | dispatchLock => trivial
  | dispatchLease => exact h (leased _ rfl)
  | dispatchStatus | dispatchHistory => exact h
  | @dispatchTransition g rows =>
    obtain ⟨locked, pending, written⟩ := dispatched g rfl
    exact .dispatched g locked pending h written
  | leaseDeleted =>
    obtain ⟨came, only, took⟩ := h
    obtain ⟨named, gone⟩ := took (found _ _ _ (.inl rfl))
    exact ⟨came, named, gone, fun _ => only, fun took => absurd rfl took⟩
  | noLease => exact .mild (deleted h.2.1)
  | resultJob =>
    obtain ⟨came, _, _, _, accepting⟩ := h
    exact ⟨came, ws, accepting (found _ _ _ (.inr rfl)), (List.append_nil ws).symm⟩
  | notDispatched => exact .mild (deleted (h.2.2.2.1 rfl))
  | @resultCommit ctx workerId msg rows =>
    obtain ⟨came, pre, accepting, written⟩ := h
    rw [recorded ctx workerId msg rfl] at written
    exact ⟨ctx, workerId, msg, pre, [], came, accepting, written, by simp⟩
  | resultHistory => exact h
  | resultTransition => exact .accepted h
  | _ => exact h

/-- The assertion of a transaction: what it issues, what it has locked for a
dispatch, and what holds at its program point. -/
structure Concluding (src : Inputs) (held : Lock → Prop) (db : Db) (e : Env) (x : SqlTxn) : Prop where
  issues : Issues held db e x
  dispatching : Dispatching held db x
  stands : x.pc.Stands src held db (takenRows x) x.writes
  inserting : ∀ ctx workerId msg, x.pc = .resultCommit ctx workerId msg →
    ∀ c, x.cursor = some c → c.affected ++ c.remaining = [.new]

namespace Concluding

variable {e e' : Env} {x : SqlTxn}

theorem start {p : Prog} (entry : p.entry = true) (came : p.From src) :
    Concluding src held db e ⟨p, none, [], false⟩ := by
  refine ⟨.start entry, .start entry, ?_, ?_⟩
  · cases p with
    | cancelJob => exact ⟨came, fun w hw => by cases hw⟩
    | resultLease => exact ⟨came, fun w hw => (by cases hw), fun took => absurd rfl took⟩
    | submitJob | dispatchSelect | failedLease | heartbeatLease | reaperSelect =>
      intro w hw
      cases hw
    | _ => cases entry
  · intro ctx workerId msg _ c hc
    cases hc

theorem stable (h : Concluding src held db e x) (le : e ≤ e') (grow : ∀ k, held k → held' k)
    (agree : ∀ k, held k → k.Agree db db') : Concluding src held' db' e' x := by
  have issues := h.issues.stable le agree
  exact ⟨{ issues with locked := issues.locked.grow grow }, h.dispatching.stable grow agree,
    h.stands.stable grow agree, h.inserting⟩

theorem scan (h : Concluding src held db e x) (cmd : x.pc.code = .sql st next)
    (idle : x.cursor = none) (perm : rows.Perm (st.scan (sqlMachine.view db x.writes))) :
    Concluding src held db e { x with cursor := some ⟨rows, []⟩ } := by
  have stands := h.stands
  rw [takenRows, idle] at stands
  refine ⟨h.issues.scan cmd idle perm, h.dispatching.scan cmd idle perm, stands, ?_⟩
  intro ctx workerId msg hp c hc
  cases hc
  rw [show x.pc = .resultCommit ctx workerId msg from hp] at cmd
  cases cmd
  exact List.perm_singleton.mp perm

theorem violated (h : Concluding src held db e x) :
    Concluding src held db e { x with failed := true } :=
  ⟨{ h.issues with locked := h.issues.locked.violated }, h.dispatching.violated, h.stands, h.inserting⟩

theorem passed (h : Concluding src held db e x) (cmd : x.pc.code = .sql st next)
    (cur : x.cursor = some ⟨r :: rest, affected⟩)
    (why : st.recheck (sqlMachine.view db x.writes) r = false ∨ st.skipLocked = true) :
    Concluding src held db e { x with cursor := some ⟨rest, affected⟩ } := by
  have stands := h.stands
  rw [takenRows, cur] at stands
  refine ⟨h.issues.passed cmd cur why, h.dispatching.passed cmd cur why, stands, ?_⟩
  intro ctx workerId msg hp
  rw [show x.pc = .resultCommit ctx workerId msg from hp] at cmd
  cases cmd
  rcases why with why | why <;> cases why

theorem taken (h : Concluding src held db e x) (cmd : x.pc.code = .sql st next)
    (cur : x.cursor = some ⟨r :: rest, affected⟩)
    (clean : st.violates (sqlMachine.view db x.writes) r = false)
    (recheck : st.recheck (sqlMachine.view db x.writes) r = true) :
    Concluding src (fun k => k ∈ st.locks r ∨ held k) db e
      { x with cursor := some ⟨rest, affected ++ [r]⟩, writes := x.writes ++ st.writes r } := by
  have stands := h.stands
  rw [takenRows, cur] at stands
  refine ⟨h.issues.taken cmd cur, h.dispatching.taken cmd cur recheck,
    stands.taken cmd recheck clean ?_, ?_⟩
  · intro g hp
    obtain ⟨all, written⟩ := h.dispatching.during g.jobId [] (by rw [hp]; rfl) _ cur
    have first : affected = [] := by
      cases affected with
      | nil => rfl
      | cons q qs => simp at all
    simpa [first] using written
  · intro ctx workerId msg hp c hc
    cases hc
    simpa using h.inserting ctx workerId msg hp _ cur

theorem close (h : Concluding src held db e x) (cmd : x.pc.code = .sql st next) {c : Cursor Row}
    (cur : x.cursor = some c) (exhausted : st.exhausted c = true) :
    Concluding src held db e { x with pc := next c.affected, cursor := none } := by
  have stands := h.stands
  rw [takenRows, cur] at stands
  refine ⟨h.issues.close cmd cur exhausted, h.dispatching.close cmd cur exhausted,
    stands.closed (Prog.leads cmd _) ?_ ?_ ?_ fun _ _ _ => found_rows cmd, ?_⟩
  · intro g hp
    exact h.dispatching.written hp cmd cur exhausted
  · intro g hp silent
    have none : c.affected = [] := silent
    have led : x.pc.drafted = some (g.jobId, []) := by rw [hp]; rfl
    obtain ⟨all, _⟩ := h.dispatching.during g.jobId [] led c cur
    obtain ⟨_, _, many, _⟩ := drafted_rows cmd led (h.dispatching.locked _ _ led).2
    have ended : c.remaining = [] := by simpa [Stmt.exhausted, many] using exhausted
    rw [none, ended] at all
    cases all
  · intro ctx workerId msg hp
    have all := h.inserting ctx workerId msg hp c cur
    rw [show x.pc = .resultCommit ctx workerId msg from hp] at cmd
    cases cmd
    have ended : c.remaining = [] := by simpa [Stmt.exhausted, Sql.insert] using exhausted
    simpa [ended] using all
  · intro ctx workerId msg _ c' hc
    cases hc

theorem call (hI : Issued db e) (h : Concluding src held db e x) {f : Env → Env × Prog}
    (cmd : x.pc.code = .call f) : e ≤ (f e).1 ∧ Concluding src held db (f e).1 { x with pc := (f e).2 } := by
  obtain ⟨le, issues⟩ := Issues.call hI h.issues cmd
  have idle := h.dispatching.calling f cmd
  refine ⟨le, issues, h.dispatching.call cmd e, ?_, ?_⟩
  · have none : takenRows { x with pc := (f e).2 } = [] := by rw [takenRows, idle]; rfl
    rw [none]
    exact stands_reads (Prog.reads cmd e)
  · intro ctx workerId msg _ c hc
    rw [idle] at hc
    cases hc

/-- The commit of a finished transaction. -/
theorem settles (h : Concluding src held db e x) (cmd : x.pc.code = .finish)
    (safe : ∀ j, (db.view j).Safe src j) (j : JobId) :
    Settles src j (db.view j) ((sqlMachine.view db x.writes).view j) := by
  have stands := h.stands
  cases hp : x.pc with
  | done =>
    rw [hp] at stands
    exact Concluded.settles stands (fun g hg => (h.issues.fresh g hg).1) safe j
  | _ =>
    rw [hp] at cmd
    cases cmd

end Concluding

def concludingOutline (src : Inputs) : Outline sqlMachine sqlProtection where
  starts := Prog.From src
  allowed _ _ := True
  I db e := Issued db e ∧ ∀ j, (db.view j).Safe src j
  A := Concluding src
  guarded h := h.issues.locked.writes
  grow hg h := h.stable le_rfl hg fun k _ => sqlProtection.refl k _
  stable h _ he agree := h.stable he (fun _ => id) agree
  later hI he := ⟨issueOutline.later hI.1 he, hI.2⟩
  start entry came _ := .start entry came
  scan _ h cmd idle perm := h.scan cmd idle perm
  violated _ h _ _ _ := h.violated
  taken _ h _ cmd cur _ clean recheck := h.taken cmd cur clean recheck
  passed _ h cmd cur why := h.passed cmd cur why
  close _ h cmd cur _ exhausted := h.close cmd cur exhausted
  call hI h cmd := Concluding.call hI.1 h cmd
  commit hI h cmd := ⟨Issues.commit hI.1 h.issues, fun j => (h.settles cmd hI.2 j).safe⟩

end Dispatcher
