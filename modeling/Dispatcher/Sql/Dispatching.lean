import Dispatcher.Sql.Writes

namespace Dispatcher
open Tables ReadCommitted

/-- The writes of a whole dispatch. -/
def Grant.writes (g : Grant) : List Write :=
  [.insertLease g.lease, .patchJob g.jobId ⟨.dispatched, none, g.ctx.pgNowMs⟩,
    .insertHistory g.history,
    .insertTransition (JobEvent.log g.ctx g.jobId (some .pending) .dispatched)]

/-- Together they are the event of a dispatch, at the time that Postgres read. -/
theorem view_dispatched (g : Grant) {db : Db} (unleased : db.leases.lookup g.jobId = none)
    (k : JobId) : (sqlMachine.view db g.writes).view k =
      if g.jobId = k then
        (JobEvent.dispatched { g.ctx with pgClockUs := g.issuedAtMs } g.workerId g.token).apply k
          (db.view k)
      else db.view k := by
  simp only [Grant.writes, Machine.view_cons, Machine.view_nil, sqlMachine_apply, apply_view,
    Write.subject, Grant.lease, Grant.history, JobEvent.log]
  by_cases hk : g.jobId = k
  · subst hk
    have none : (db.view g.jobId).lease = none := unleased
    simp [Write.on, JobEvent.apply, JobEvent.log, none]
  · simp [hk]

namespace Prog

/-- The job that a dispatch has locked, and what it has written before the
statement it stands at. -/
def drafted : Prog → Option (JobId × List Write)
  | dispatchLock _ _ _ j | dispatchRead _ _ _ j | dispatchClock _ _ j _
  | dispatchToken _ _ j _ => some (j, [])
  | dispatchLease g => some (g.jobId, [])
  | dispatchStatus g => some (g.jobId, g.writes.take 1)
  | dispatchHistory g => some (g.jobId, g.writes.take 2)
  | dispatchTransition g => some (g.jobId, g.writes.take 3)
  | _ => none

def row : Prog → Row
  | dispatchStatus g => .job g.jobId
  | _ => .new

def writes (p : Prog) (r : Row) : List Write :=
  match p.code with
  | .sql st _ => st.writes r
  | _ => []

theorem writes_of_code {p : Prog} {st : Sql.Stmt} {next : List Row → Prog}
    (h : p.code = .sql st next) : p.writes = st.writes := by
  funext r
  simp only [writes, h]

end Prog

theorem drafted_leads {p q : Prog} {rows : List Row} {j : JobId} {ws : List Write}
    (led : p.Leads rows q) (h : q.drafted = some (j, ws)) :
    (∃ vs, p.drafted = some (j, vs) ∧ ws = vs ++ p.writes p.row) ∨
      ∃ ctx w b, p = .dispatchSelect ctx w b ∧ ws = [] ∧ .job j ∈ rows := by
  cases led with
  | selected =>
    cases h
    exact .inr ⟨_, _, _, rfl, rfl, List.mem_cons_self⟩
  | dispatchLock | dispatchLease | dispatchStatus | dispatchHistory =>
    cases h
    exact .inl ⟨_, rfl, rfl⟩
  | _ => cases h

theorem not_leads_select {p : Prog} {rows : List Row} {ctx : Ctx} {w : WorkerId} {b : Bool} :
    ¬ p.Leads rows (.dispatchSelect ctx w b) := by
  intro led
  cases led

theorem drafted_reads {p q : Prog} {e e' : Env} (read : p.Reads e e' q) :
    q.drafted = p.drafted ∧ ∀ ctx w b, q ≠ .dispatchSelect ctx w b := by
  cases read <;> exact ⟨rfl, by simp⟩

/-- The rows that a statement of a dispatch finds, and that it takes each of them. -/
theorem drafted_rows {p : Prog} {st : Sql.Stmt} {next : List Row → Prog} {j : JobId}
    {ws : List Write} {db : Db} (cmd : p.code = .sql st next) (hp : p.drafted = some (j, ws))
    (pending : db.statusOf j = some .pending) :
    st.scan (sqlMachine.view db ws) = [p.row] ∧ st.skipLocked = false ∧ st.single = false ∧
      st.recheck (sqlMachine.view db ws) p.row = true := by
  cases p with
  | dispatchStatus g =>
    cases cmd
    cases hp
    obtain ⟨r, hr, _⟩ := Option.map_eq_some_iff.mp pending
    have kept : (sqlMachine.view db (g.writes.take 1)).jobs = db.jobs := rfl
    have key : r.jobId = g.jobId := Table.lookup_key hr
    simp [Sql.updateJobs, kept, Table.filter_key, hr, key, Prog.row]
  | dispatchLock | dispatchLease | dispatchHistory | dispatchTransition =>
    cases cmd
    exact ⟨rfl, rfl, rfl, rfl⟩
  | dispatchRead | dispatchClock | dispatchToken => cases cmd
  | _ => cases hp

/-- The part of an assertion that is about a dispatch: it holds the lock on its
PENDING job from the SELECT on, and has written what stands before its statement. -/
structure Dispatching (held : Lock → Prop) (db : Db) (x : SqlTxn) : Prop where
  calling : ∀ f, x.pc.code = .call f → x.cursor = none
  selecting : ∀ ctx w b, x.pc = .dispatchSelect ctx w b → x.writes = [] ∧
    ∀ c, x.cursor = some c → ∀ r ∈ c.affected, ∃ j, r = .job j ∧ held (.job j) ∧
      db.statusOf j = some .pending
  locked : ∀ j ws, x.pc.drafted = some (j, ws) → held (.job j) ∧ db.statusOf j = some .pending
  before : ∀ j ws, x.pc.drafted = some (j, ws) → x.cursor = none → x.writes = ws
  during : ∀ j ws, x.pc.drafted = some (j, ws) → ∀ c, x.cursor = some c →
    c.affected ++ c.remaining = [x.pc.row] ∧ x.writes = ws ++ c.affected.flatMap x.pc.writes

namespace Dispatching

variable {held held' : Lock → Prop} {db db' : Db} {x : SqlTxn} {st : Sql.Stmt}
  {next : List Row → Prog} {r : Row} {rows rest affected : List Row}

theorem start {p : Prog} (hp : p.entry = true) : Dispatching held db ⟨p, none, [], false⟩ := by
  have none : p.drafted = none := by
    cases p <;> first | rfl | cases hp
  refine ⟨fun _ _ => rfl, fun _ _ _ _ => ⟨rfl, by simp⟩, ?_, ?_, ?_⟩
  · intro j ws h
    rw [none] at h
    cases h
  · intro j ws h
    rw [none] at h
    cases h
  · intro j ws _ c hc
    cases hc

theorem stable (h : Dispatching held db x) (grow : ∀ k, held k → held' k)
    (agree : ∀ k, held k → k.Agree db db') : Dispatching held' db' x := by
  have status : ∀ j, held (.job j) → db.statusOf j = some .pending →
      db'.statusOf j = some .pending :=
    fun j hj hs => (Lock.Agree.status (agree _ hj)).trans hs
  refine ⟨h.calling, ?_, ?_, h.before, h.during⟩
  · intro ctx w b hp
    obtain ⟨silent, taken⟩ := h.selecting ctx w b hp
    refine ⟨silent, ?_⟩
    intro c hc r hr
    obtain ⟨j, rfl, hj, hs⟩ := taken c hc r hr
    exact ⟨j, rfl, grow _ hj, status j hj hs⟩
  · intro j ws hp
    obtain ⟨hj, hs⟩ := h.locked j ws hp
    exact ⟨grow _ hj, status j hj hs⟩

theorem scan (h : Dispatching held db x) (cmd : x.pc.code = .sql st next) (idle : x.cursor = none)
    (perm : rows.Perm (st.scan (sqlMachine.view db x.writes))) :
    Dispatching held db { x with cursor := some ⟨rows, []⟩ } := by
  refine ⟨?_, ?_, h.locked, ?_, ?_⟩
  · intro f hf
    rw [cmd] at hf
    cases hf
  · intro ctx w b hp
    refine ⟨(h.selecting ctx w b hp).1, ?_⟩
    intro c hc r hr
    cases hc
    cases hr
  · intro j ws _ hc
    cases hc
  · intro j ws hp c hc
    cases hc
    have written := h.before j ws hp idle
    obtain ⟨found, _⟩ := drafted_rows cmd hp (h.locked j ws hp).2
    rw [written, found] at perm
    exact ⟨List.perm_singleton.mp perm, by simpa using written⟩

theorem violated (h : Dispatching held db x) : Dispatching held db { x with failed := true } :=
  ⟨h.calling, h.selecting, h.locked, h.before, h.during⟩

theorem taken (h : Dispatching held db x) (cmd : x.pc.code = .sql st next)
    (cur : x.cursor = some ⟨r :: rest, affected⟩)
    (recheck : st.recheck (sqlMachine.view db x.writes) r = true) :
    Dispatching (fun k => k ∈ st.locks r ∨ held k) db
      { x with cursor := some ⟨rest, affected ++ [r]⟩, writes := x.writes ++ st.writes r } := by
  refine ⟨?_, ?_, ?_, ?_, ?_⟩
  · intro f hf
    rw [cmd] at hf
    cases hf
  · intro ctx w b hp
    obtain ⟨silent, before⟩ := h.selecting ctx w b hp
    rw [show x.pc = .dispatchSelect ctx w b from hp] at cmd
    cases cmd
    refine ⟨by simp [silent, Sql.selectPending], ?_⟩
    intro c hc q hq
    cases hc
    rcases List.mem_append.mp hq with hq | hq
    · obtain ⟨j, rfl, hj, hs⟩ := before _ cur q hq
      exact ⟨j, rfl, .inr hj, hs⟩
    · cases List.mem_singleton.mp hq
      rw [silent] at recheck
      cases r with
      | job j => exact ⟨j, rfl, .inl List.mem_cons_self, of_decide_eq_true recheck⟩
      | _ => cases recheck
  · intro j ws hp
    obtain ⟨hj, hs⟩ := h.locked j ws hp
    exact ⟨.inr hj, hs⟩
  · intro j ws _ hc
    cases hc
  · intro j ws hp c hc
    cases hc
    obtain ⟨all, written⟩ := h.during j ws hp _ cur
    refine ⟨by simpa using all, ?_⟩
    simp [written, Prog.writes_of_code cmd]

theorem passed (h : Dispatching held db x) (cmd : x.pc.code = .sql st next)
    (cur : x.cursor = some ⟨r :: rest, affected⟩)
    (why : st.recheck (sqlMachine.view db x.writes) r = false ∨ st.skipLocked = true) :
    Dispatching held db { x with cursor := some ⟨rest, affected⟩ } := by
  refine ⟨?_, ?_, h.locked, ?_, ?_⟩
  · intro f hf
    rw [cmd] at hf
    cases hf
  · intro ctx w b hp
    refine ⟨(h.selecting ctx w b hp).1, ?_⟩
    intro c hc q hq
    cases hc
    exact (h.selecting ctx w b hp).2 _ cur q hq
  · intro j ws _ hc
    cases hc
  · intro j ws hp c _
    obtain ⟨all, written⟩ := h.during j ws hp _ cur
    obtain ⟨_, waits, _, finds⟩ := drafted_rows cmd hp (h.locked j ws hp).2
    -- the one row of a dispatch's statement is never passed over
    have first : affected = [] ∧ r = x.pc.row := by
      cases affected with
      | nil => exact ⟨rfl, (List.cons.inj all).1⟩
      | cons q qs => simp at all
    rw [written, first.1, first.2] at why
    simp [finds, waits] at why

theorem close (h : Dispatching held db x) (cmd : x.pc.code = .sql st next) {c : Cursor Row}
    (cur : x.cursor = some c) (exhausted : st.exhausted c = true) :
    Dispatching held db { x with pc := next c.affected, cursor := none } := by
  have led := Prog.leads cmd c.affected
  refine ⟨fun _ _ => rfl, ?_, ?_, ?_, ?_⟩
  · intro ctx w b hp
    rw [show next c.affected = .dispatchSelect ctx w b from hp] at led
    exact absurd led not_leads_select
  · intro j ws hp
    rcases drafted_leads led hp with ⟨vs, hq, _⟩ | ⟨ctx, w, b, hq, _, hj⟩
    · exact h.locked j vs hq
    · obtain ⟨i, hi, held⟩ := (h.selecting ctx w b hq).2 c cur _ hj
      cases hi
      exact held
  · intro j ws hp _
    rcases drafted_leads led hp with ⟨vs, hq, rfl⟩ | ⟨ctx, w, b, hq, rfl, _⟩
    · obtain ⟨all, written⟩ := h.during j vs hq c cur
      obtain ⟨_, _, many, _⟩ := drafted_rows cmd hq (h.locked j vs hq).2
      have ended : c.remaining = [] := by simpa [Stmt.exhausted, many] using exhausted
      rw [ended, List.append_nil] at all
      simpa [all] using written
    · exact (h.selecting ctx w b hq).1
  · intro j ws _ c hc
    cases hc

theorem call (h : Dispatching held db x) {f : Env → Env × Prog} (cmd : x.pc.code = .call f)
    (e : Env) : Dispatching held db { x with pc := (f e).2 } := by
  have idle := h.calling f cmd
  obtain ⟨same, other⟩ := drafted_reads (Prog.reads cmd e)
  refine ⟨fun _ _ => idle, ?_, ?_, ?_, ?_⟩
  · intro ctx w b hp
    exact absurd hp (other ctx w b)
  · intro j ws hp
    exact h.locked j ws (same ▸ hp)
  · intro j ws hp hc
    exact h.before j ws (same ▸ hp) hc
  · intro j ws _ c hc
    rw [idle] at hc
    cases hc

/-- A dispatch at its end has written all of its four rows. -/
theorem written (h : Dispatching held db x) {g : Grant} (hp : x.pc = .dispatchTransition g)
    (cmd : x.pc.code = .sql st next) {c : Cursor Row} (cur : x.cursor = some c)
    (exhausted : st.exhausted c = true) :
    held (.job g.jobId) ∧ db.statusOf g.jobId = some .pending ∧ x.writes = g.writes := by
  have hq : x.pc.drafted = some (g.jobId, g.writes.take 3) := by rw [hp]; rfl
  obtain ⟨hj, hs⟩ := h.locked _ _ hq
  obtain ⟨all, written⟩ := h.during _ _ hq c cur
  obtain ⟨_, _, many, _⟩ := drafted_rows cmd hq hs
  have ended : c.remaining = [] := by simpa [Stmt.exhausted, many] using exhausted
  rw [ended, List.append_nil] at all
  rw [all, hp] at written
  exact ⟨hj, hs, written⟩

end Dispatching

end Dispatcher
