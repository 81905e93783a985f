import Dispatcher.Sql.Accounts
import Dispatcher.Sql.Concluding

namespace Dispatcher
open Tables ReadCommitted

variable {st : Sql.Stmt} {next : List Row → Prog} {db : Db} {ws : List Write} {r : Row} {p : Prog}
  {rows : List Row}

def Write.log (ctx : Ctx) (j : JobId) (fromStatus : Option JobStatus) (toStatus : JobStatus) : Write :=
  .insertTransition (JobEvent.log ctx j fromStatus toStatus)

namespace Prog

/-- What a transaction has still to write, while its statement has taken no row. -/
def owes : Prog → List Write
  | submitJob ctx _ _ | submitTransition ctx => [.log ctx ctx.freshId none .pending]
  | cancelJob ctx j | cancelTransition ctx j => [.log ctx j (some .pending) .cancelled]
  | dispatchStatus g | dispatchHistory g =>
    [.insertHistory g.history, .log g.ctx g.jobId (some .pending) .dispatched]
  | dispatchTransition g => [.log g.ctx g.jobId (some .pending) .dispatched]
  | resultCommit ctx workerId msg =>
    [.insertCommit (msg.attempt ctx workerId), .log ctx msg.jobId (some .dispatched) .succeeded]
  | resultHistory ctx j | resultTransition ctx j => [.log ctx j (some .dispatched) .succeeded]
  | failedJob ctx msg | failedHistory ctx msg =>
    if msg.temporary then [] else [.log ctx msg.jobId (some .dispatched) .failed]
  | failedTransition ctx msg => [.log ctx msg.jobId (some .dispatched) .failed]
  | _ => []

/-- And once it has taken one. -/
def owesStill : Prog → List Write
  | submitTransition _ | cancelTransition .. | dispatchTransition _ | resultTransition ..
  | failedTransition .. => []
  | dispatchHistory g => [.log g.ctx g.jobId (some .pending) .dispatched]
  | resultJob ctx workerId msg =>
    [.insertCommit (msg.attempt ctx workerId), .log ctx msg.jobId (some .dispatched) .succeeded]
  | resultCommit ctx _ msg => [.log ctx msg.jobId (some .dispatched) .succeeded]
  | p => p.owes

def owed (p : Prog) (taken : List Row) : List Write := if taken = [] then p.owes else p.owesStill

/-- The statement inserts what is owed first. -/
def pays : Prog → Bool
  | submitTransition _ | cancelTransition .. | dispatchHistory _ | dispatchTransition _ | resultCommit ..
  | resultTransition .. | failedTransition .. => true
  | _ => false

theorem pays_insert (cmd : p.code = .sql st next) (pays : p.pays = true) :
    ∃ w, st = Sql.insert [w] ∧ p.owes = w :: p.owesStill := by
  cases p with
  | submitTransition | cancelTransition | dispatchHistory | dispatchTransition | resultCommit
  | resultTransition | failedTransition =>
    cases cmd
    exact ⟨_, rfl, rfl⟩
  | _ => cases pays

end Prog

theorem balanced_log {ctx : Ctx} {j : JobId} {fromStatus : Option JobStatus} {toStatus : JobStatus}
    (dispatched : toStatus ≠ .dispatched) (succeeded : toStatus ≠ .succeeded) :
    Balanced [.log ctx j fromStatus toStatus] := by
  have covered : (Write.log ctx j fromStatus toStatus).Covered [] := .insertTransition dispatched succeeded
  have empty : Balanced ([] ++ []) := .nil
  exact empty.cover covered

theorem balanced_grant (g : Grant) :
    Balanced [.insertHistory g.history, .log g.ctx g.jobId (some .pending) .dispatched] := by
  refine ⟨fun j => ?_, fun j => ?_, by simp [Write.log], by simp [Write.log]⟩
  · by_cases own : g.jobId = j <;>
      simp [Write.issued, Write.logged, Write.log, into, JobEvent.log, Grant.history, own]
  · by_cases own : g.jobId = j <;>
      simp [Write.committed, Write.logged, Write.log, into, JobEvent.log, own]

theorem balanced_commit (ctx : Ctx) (workerId : WorkerId) (msg : JobResult) :
    Balanced [.patchJob msg.jobId ⟨.succeeded, some msg.result, ctx.nowMs⟩,
      .insertCommit (msg.attempt ctx workerId), .log ctx msg.jobId (some .dispatched) .succeeded] := by
  refine ⟨fun j => ?_, fun j => ?_, by simp [Write.log], ?_⟩
  · by_cases own : msg.jobId = j <;>
      simp [Write.issued, Write.logged, Write.log, into, JobEvent.log, own]
  · by_cases own : msg.jobId = j <;>
      simp [Write.committed, Write.logged, Write.log, into, JobEvent.log, JobResult.attempt, own]
  · simp [Write.logged, Write.log, JobEvent.log]

namespace Prog

/-- A row that a statement takes. -/
theorem taken_balanced {taken : List Row} (cmd : p.code = .sql st next)
    (balanced : Balanced (ws ++ p.owed taken))
    (recheck : st.recheck (sqlMachine.view db ws) r = true) (first : p.pays = true → taken = []) :
    Balanced ((ws ++ st.writes r) ++ p.owed (taken ++ [r])) := by
  have still : p.owed (taken ++ [r]) = p.owesStill := by simp [owed]
  rw [still]
  by_cases pays : p.pays = true
  · obtain ⟨w, rfl, owes⟩ := pays_insert cmd pays
    rw [first pays, owed, if_pos rfl, owes] at balanced
    rwa [List.append_assoc]
  by_cases records : ∃ ctx workerId msg, p = .resultJob ctx workerId msg
  · obtain ⟨ctx, workerId, msg, rfl⟩ := records
    cases cmd
    obtain ⟨q, rfl, _, found⟩ := updateJobs_recheck recheck
    simp only [Bool.and_eq_true, decide_eq_true_eq] at found
    have writes : (Sql.updateJobs (fun r => r.jobId = msg.jobId && r.status = .dispatched)
        ⟨.succeeded, some msg.result, ctx.nowMs⟩).writes (.job q.jobId) =
          [.patchJob msg.jobId ⟨.succeeded, some msg.result, ctx.nowMs⟩] := by
      rw [← found.1]
      rfl
    rw [writes]
    by_cases none : taken = []
    · have nothing : (resultJob ctx workerId msg).owes = [] := rfl
      rw [owed, if_pos none, nothing, List.append_nil] at balanced
      rw [List.append_assoc]
      exact balanced.append (balanced_commit ctx workerId msg)
    · rw [owed, if_neg none] at balanced
      refine balanced.cover (.patchJob (.inr ?_))
      simp [owesStill, Write.logged, Write.log, JobEvent.log]
  have same : p.owesStill = p.owes := by
    cases p with
    | submitTransition | cancelTransition | dispatchHistory | dispatchTransition | resultCommit
    | resultTransition | failedTransition => exact absurd rfl pays
    | resultJob ctx workerId msg => exact absurd ⟨_, _, _, rfl⟩ records
    | _ => rfl
  have before : Balanced (ws ++ p.owes) := by
    unfold owed at balanced
    split at balanced
    · exact balanced
    · rwa [same] at balanced
  rw [same]
  apply before.covers
  cases p with
  | submitTransition | cancelTransition | dispatchHistory | dispatchTransition | resultCommit
  | resultTransition | failedTransition => exact absurd rfl pays
  | resultJob ctx workerId msg => exact absurd ⟨_, _, _, rfl⟩ records
  | dispatchRead | dispatchClock | dispatchToken | done => cases cmd
  | dispatchSelect | dispatchLock | reaperSelect =>
    cases cmd
    intro w hw
    cases hw
  | submitJob ctx key payload =>
    cases cmd
    intro w hw
    cases List.mem_singleton.mp hw
    refine .insertJob rfl ?_
    simp [owes, Write.logged, Write.log, JobEvent.log]
  | dispatchLease g =>
    cases cmd
    intro w hw
    cases List.mem_singleton.mp hw
    exact .insertLease
  | cancelJob ctx j =>
    cases cmd
    intro w hw
    obtain ⟨i, rfl, rfl⟩ := Sql.mem_updateJobs hw
    obtain ⟨q, named, _, found⟩ := updateJobs_recheck recheck
    cases named
    refine .patchJob (.inr ?_)
    rw [of_decide_eq_true found]
    simp [owes, Write.logged, Write.log, JobEvent.log]
  | dispatchStatus g =>
    cases cmd
    intro w hw
    obtain ⟨i, rfl, rfl⟩ := Sql.mem_updateJobs hw
    obtain ⟨q, named, _, found⟩ := updateJobs_recheck recheck
    cases named
    refine .patchJob (.inr ?_)
    rw [of_decide_eq_true found]
    simp [owes, Write.logged, Write.log, JobEvent.log]
  | failedJob ctx msg =>
    cases cmd
    intro w hw
    obtain ⟨i, rfl, rfl⟩ := Sql.mem_updateJobs hw
    obtain ⟨q, named, _, found⟩ := updateJobs_recheck recheck
    cases named
    simp only [Bool.and_eq_true, decide_eq_true_eq] at found
    refine .patchJob ?_
    cases temporary : msg.temporary with
    | true => exact .inl rfl
    | false =>
      refine .inr ?_
      rw [found.1]
      simp [owes, temporary, Write.logged, Write.log, JobEvent.log]
  | reaperJobs ctx ids =>
    cases cmd
    intro w hw
    obtain ⟨i, rfl, rfl⟩ := Sql.mem_updateJobs hw
    exact .patchJob (.inl rfl)
  | resultLease | failedLease | reaperLeases =>
    cases cmd
    intro w hw
    obtain ⟨j, token, rfl, rfl⟩ := Sql.mem_deleteLeases hw
    exact .deleteLease
  | heartbeatLease =>
    cases cmd
    intro w hw
    obtain ⟨j, token, rfl, rfl⟩ := Sql.mem_updateLeases hw
    exact .extendLease
  | resultHistory | failedHistory | reaperHistory =>
    cases cmd
    intro w hw
    obtain ⟨j, fence, rfl, rfl⟩ := Sql.mem_terminateHistory hw
    exact .terminate
  | reaperTransitions ctx ids =>
    cases cmd
    intro w hw
    obtain ⟨j, _, rfl⟩ := List.mem_map.mp hw
    exact .insertTransition (by simp [JobEvent.log]) (by simp [JobEvent.log])

/-- The end of a statement. -/
theorem closed_balanced (cmd : p.code = .sql st next) (balanced : Balanced (ws ++ p.owed rows))
    (paid : p.pays = true → rows ≠ []) : Balanced (ws ++ (next rows).owes) := by
  have settled : p.owed rows = (next rows).owes → Balanced (ws ++ (next rows).owes) := by
    intro same
    rwa [← same]
  cases p with
  | submitTransition | cancelTransition | dispatchTransition | resultTransition | failedTransition
  | dispatchHistory | resultCommit =>
    cases cmd
    exact settled (if_neg (paid rfl))
  | dispatchRead | dispatchClock | dispatchToken | done => cases cmd
  | dispatchSelect =>
    cases cmd
    apply settled
    cases rows with
    | nil => rfl
    | cons r rest => cases r <;> rfl
  | resultLease | resultJob | reaperSelect =>
    cases cmd
    apply settled
    cases rows <;> rfl
  | dispatchLease g =>
    cases cmd
    simp only [owed, owes, owesStill, ite_self, List.append_nil] at balanced
    exact balanced.append (balanced_grant g)
  | failedLease ctx msg =>
    cases cmd
    simp only [owed, owes, owesStill, ite_self, List.append_nil] at balanced
    refine balanced.append ?_
    simp only [owes]
    split
    · exact .nil
    · exact balanced_log (by simp) (by simp)
  | failedHistory ctx msg =>
    cases cmd
    apply settled
    cases temporary : msg.temporary <;> cases rows <;> simp [owed, owesStill, owes, temporary]
  | _ =>
    cases cmd
    apply settled
    cases rows <;> rfl

end Prog

/-- The assertion of a transaction: once it has written what it owes, its writes are balanced. -/
structure Accounting (held : Lock → Prop) (x : SqlTxn) : Prop where
  locked : Locked held x
  balanced : Balanced (x.writes ++ x.pc.owed (takenRows x))
  paying : x.pc.pays = true → ∀ c, x.cursor = some c → c.affected ++ c.remaining = [.new]

namespace Accounting

variable {held held' : Lock → Prop} {x : SqlTxn} {rest affected : List Row}

theorem start {p : Prog} (entry : p.entry = true) : Accounting held ⟨p, none, [], false⟩ := by
  refine ⟨.start entry, ?_, fun _ c hc => by cases hc⟩
  cases p with
  | submitJob | cancelJob => exact balanced_log (by simp) (by simp)
  | dispatchSelect | resultLease | failedLease | heartbeatLease | reaperSelect => exact .nil
  | _ => cases entry

theorem grow (h : Accounting held x) (grow : ∀ k, held k → held' k) : Accounting held' x :=
  { h with locked := h.locked.grow grow }

theorem scan (h : Accounting held x) (cmd : x.pc.code = .sql st next) (idle : x.cursor = none)
    (perm : rows.Perm (st.scan (sqlMachine.view db x.writes))) :
    Accounting held { x with cursor := some ⟨rows, []⟩ } := by
  have balanced := h.balanced
  rw [takenRows, idle] at balanced
  refine ⟨h.locked.scan cmd perm, balanced, fun pays c hc => ?_⟩
  cases hc
  obtain ⟨w, rfl, _⟩ := Prog.pays_insert cmd pays
  exact List.perm_singleton.mp perm

theorem violated (h : Accounting held x) : Accounting held { x with failed := true } :=
  ⟨h.locked.violated, h.balanced, h.paying⟩

theorem taken (h : Accounting held x) (cmd : x.pc.code = .sql st next)
    (cur : x.cursor = some ⟨r :: rest, affected⟩)
    (recheck : st.recheck (sqlMachine.view db x.writes) r = true) :
    Accounting (fun k => k ∈ st.locks r ∨ held k)
      { x with cursor := some ⟨rest, affected ++ [r]⟩, writes := x.writes ++ st.writes r } := by
  have balanced := h.balanced
  rw [takenRows, cur] at balanced
  refine ⟨h.locked.taken cmd, Prog.taken_balanced cmd balanced recheck ?_, fun pays c hc => ?_⟩
  · intro pays
    have all := h.paying pays _ cur
    cases affected with
    | nil => rfl
    | cons q qs => simp at all
  · cases hc
    simpa using h.paying pays _ cur

theorem passed (h : Accounting held x) (cmd : x.pc.code = .sql st next)
    (cur : x.cursor = some ⟨r :: rest, affected⟩)
    (why : st.recheck (sqlMachine.view db x.writes) r = false ∨ st.skipLocked = true) :
    Accounting held { x with cursor := some ⟨rest, affected⟩ } := by
  have balanced := h.balanced
  rw [takenRows, cur] at balanced
  refine ⟨h.locked.passed cmd why, balanced, fun pays => ?_⟩
  obtain ⟨w, rfl, _⟩ := Prog.pays_insert cmd pays
  rcases why with why | why <;> cases why

theorem close (h : Accounting held x) (cmd : x.pc.code = .sql st next) {c : Cursor Row}
    (cur : x.cursor = some c) (exhausted : st.exhausted c = true) :
    Accounting held { x with pc := next c.affected, cursor := none } := by
  have balanced := h.balanced
  rw [takenRows, cur] at balanced
  refine ⟨h.locked.close cmd cur exhausted, Prog.closed_balanced cmd balanced ?_,
    fun _ c' hc => by cases hc⟩
  intro pays silent
  have none : c.affected = [] := silent
  have all := h.paying pays c cur
  obtain ⟨w, rfl, _⟩ := Prog.pays_insert cmd pays
  have ended : c.remaining = [] := by simpa [Stmt.exhausted, Sql.insert] using exhausted
  rw [none, ended] at all
  cases all

theorem call (h : Accounting held x) {f : Env → Env × Prog} (cmd : x.pc.code = .call f) (e : Env) :
    e ≤ (f e).1 ∧ Accounting held { x with pc := (f e).2 } := by
  obtain ⟨le, locked⟩ := h.locked.call cmd e
  have balanced := h.balanced
  have read := Prog.reads cmd e
  generalize (f e).2 = q at read locked
  generalize (f e).1 = e' at le read
  generalize x.pc = p at read balanced
  refine ⟨le, locked, ?_, fun pays => ?_⟩
  · cases read <;> simpa [Prog.owed, Prog.owes, Prog.owesStill] using balanced
  · cases read <;> cases pays

end Accounting

/-- Every job's trail adds up whenever no transaction is half committed. -/
def accountingOutline : Outline sqlMachine sqlProtection where
  starts _ := True
  allowed _ _ := True
  I db _ := ∀ j, (db.view j).Audited
  A held _ _ x := Accounting held x
  guarded h := h.locked.writes
  grow hg h := h.grow hg
  stable h _ _ _ := h
  later h _ := h
  start entry _ _ := .start entry
  scan _ h cmd idle perm := h.scan cmd idle perm
  violated _ h _ _ _ := h.violated
  taken _ h _ cmd cur _ _ recheck := h.taken cmd cur recheck
  passed _ h cmd cur why := h.passed cmd cur why
  close _ h cmd cur _ exhausted := h.close cmd cur exhausted
  call {_ _ e} := by
    intro x f _ h cmd
    exact h.call cmd e
  commit {_ _ _ x} := by
    intro hI h cmd j
    have balanced := h.balanced
    cases hp : x.pc with
    | done =>
      have nothing : ∀ taken, Prog.done.owed taken = [] := fun taken => ite_self []
      rw [hp, nothing, List.append_nil] at balanced
      exact balanced.audited (hI j)
    | _ =>
      rw [hp] at cmd
      cases cmd

end Dispatcher
