import Dispatcher.Lib.Outlines
import Dispatcher.Sql.Flow

namespace Dispatcher
open Tables ReadCommitted

/-- What LeaseHistory says about grants, in the order they were committed. -/
def Db.grants (db : Db) : List (JobId × Token × Int) :=
  db.leaseHistory.map fun h => (h.jobId, h.fence, h.issuedAtMs)

/-- Two databases agree on what a key protects: a job's row, a job's lease, and,
under the advisory lock, the grants. -/
def Lock.Agree (db db' : Db) : Lock → Prop
  | .job j => db'.jobs.lookup j = db.jobs.lookup j
  | .lease j => db'.leases.lookup j = db.leases.lookup j
  | .advisory => db'.grants = db.grants
  | .history .. | .key _ => True

theorem Lock.Agree.status {db db' : Db} {j : JobId} (h : (Lock.job j).Agree db db') :
    db'.statusOf j = db.statusOf j :=
  congrArg (Option.map Job.status) h

def Write.lock : Write → Option Lock
  | insertJob row => some (.job row.jobId)
  | patchJob j _ => some (.job j)
  | insertLease row => some (.lease row.jobId)
  | extendLease j _ => some (.lease j)
  | deleteLease j => some (.lease j)
  | insertHistory _ => some .advisory
  | terminate .. | insertTransition _ | insertCommit _ => none

theorem terminate_grants_eq (rows : List LeaseHistory) (j : JobId) (fence : Token) (atMs : Int) :
    (rows.map fun h => if h.fence = fence then h.terminate (· = j) atMs else h).map
      (fun h => (h.jobId, h.fence, h.issuedAtMs)) = rows.map fun h => (h.jobId, h.fence, h.issuedAtMs) := by
  rw [List.map_map]
  apply List.map_congr_left
  intro h _
  simp only [Function.comp_apply, LeaseHistory.terminate]
  split
  · split <;> rfl
  · rfl

theorem agree_apply {w : Write} {k : Lock} (db : Db) (h : w.lock ≠ some k) :
    k.Agree db (w.apply db) := by
  cases k with
  | history | key => trivial
  | job j =>
    cases w with
    | insertJob row =>
      have hj : row.jobId ≠ j := fun he => h (congrArg (some ∘ Lock.job) he)
      simp [Lock.Agree, Write.apply, Table.lookup_insert, hj]
    | patchJob i patch =>
      have hj : i ≠ j := fun he => h (congrArg (some ∘ Lock.job) he)
      have hu := Table.lookup_update db.jobs (fun r => r.jobId = i) patch.on (fun _ => rfl) j
      simp only [Lock.Agree, Write.apply, Db.updateJobs, hu]
      cases hr : db.jobs.lookup j with
      | none => rfl
      | some r =>
        have hk : r.jobId = j := Table.lookup_key hr
        simp [hk, hj.symm]
    | _ => rfl
  | lease j =>
    cases w with
    | insertLease row =>
      have hj : row.jobId ≠ j := fun he => h (congrArg (some ∘ Lock.lease) he)
      simp [Lock.Agree, Write.apply, Table.lookup_insert, hj]
    | extendLease i e =>
      have hj : i ≠ j := fun he => h (congrArg (some ∘ Lock.lease) he)
      simp only [Lock.Agree, Write.apply, Db.updateLeases, Table.lookup_update]
      cases hr : db.leases.lookup j with
      | none => rfl
      | some r =>
        have hk : r.jobId = j := Table.lookup_key hr
        simp [hk, hj.symm]
    | deleteLease i =>
      have hj : i ≠ j := fun he => h (congrArg (some ∘ Lock.lease) he)
      simp only [Lock.Agree, Write.apply, Db.deleteLeases, Table.lookup_delete]
      cases hr : db.leases.lookup j with
      | none => rfl
      | some r =>
        have hk : r.jobId = j := Table.lookup_key hr
        simp [hk, hj.symm]
    | _ => rfl
  | advisory =>
    cases w with
    | insertHistory row => exact absurd rfl h
    | terminate i fence atMs => exact terminate_grants_eq db.leaseHistory i fence atMs
    | _ => rfl

def sqlProtection : Protection sqlMachine where
  agree k db db' := k.Agree db db'
  touches w k := w.lock = some k
  refl k db := by cases k <;> first | rfl | trivial
  trans {k} := by
    intro db db' db'' h h'
    cases k <;> first | trivial | exact h'.trans h
  apply := agree_apply

/-- The program points between taking the advisory lock and the row it is for. -/
def Prog.issuing : Prog → Bool
  | .dispatchRead .. | .dispatchClock .. | .dispatchToken .. | .dispatchLease _ | .dispatchStatus _
  | .dispatchHistory _ => true
  | _ => false

/-- The statement writes under the locks of its row. -/
def Sql.Guarded (st : Sql.Stmt) : Prop :=
  ∀ r, ∀ w ∈ st.writes r, ∀ k, w.lock = some k → k ∈ st.locks r

theorem updateJobs_guarded (p : Job → Bool) (patch : Db.JobPatch) :
    Sql.Guarded (Sql.updateJobs p patch) := by
  intro r w hw k hk
  obtain ⟨j, rfl, rfl⟩ := Sql.mem_updateJobs hw
  cases hk
  exact List.mem_cons_self

theorem deleteLeases_guarded (p : Lease → Bool) : Sql.Guarded (Sql.deleteLeases p) := by
  intro r w hw k hk
  obtain ⟨j, token, rfl, rfl⟩ := Sql.mem_deleteLeases hw
  cases hk
  exact List.mem_cons_self

theorem updateLeases_guarded (p : Lease → Bool) (e : Int) : Sql.Guarded (Sql.updateLeases p e) := by
  intro r w hw k hk
  obtain ⟨j, token, rfl, rfl⟩ := Sql.mem_updateLeases hw
  cases hk
  exact List.mem_cons_self

theorem terminateHistory_guarded (p : JobId → Bool) (atMs : Int) :
    Sql.Guarded (Sql.terminateHistory p atMs) := by
  intro r w hw k hk
  obtain ⟨j, fence, rfl, rfl⟩ := Sql.mem_terminateHistory hw
  cases hk

theorem insertJob_guarded (row : Job) : Sql.Guarded (Sql.insertJob row) := by
  intro r w hw k hk
  cases List.mem_singleton.mp hw
  cases hk
  exact List.mem_cons_self

theorem insertLease_guarded (row : Lease) : Sql.Guarded (Sql.insertLease row) := by
  intro r w hw k hk
  cases List.mem_singleton.mp hw
  cases hk
  exact List.mem_cons_self

theorem insert_guarded {ws : List Write} (h : ∀ w ∈ ws, w.lock = none) :
    Sql.Guarded (Sql.insert ws) := by
  intro r w hw k hk
  have hn := h w hw
  rw [hk] at hn
  cases hn

theorem silent_guarded {st : Sql.Stmt} (h : st.writes = fun _ => []) : Sql.Guarded st := by
  intro r w hw
  rw [h] at hw
  cases hw

/-- Every statement but the one that records a grant. -/
theorem code_guarded {p : Prog} {st : Sql.Stmt} {next : List Row → Prog}
    (h : p.code = .sql st next) (hp : ∀ g, p ≠ .dispatchHistory g) : Sql.Guarded st := by
  cases p with
  | submitJob => cases h; exact insertJob_guarded _
  | dispatchLease g => cases h; exact insertLease_guarded _
  | dispatchSelect | dispatchLock | reaperSelect => cases h; exact silent_guarded rfl
  | cancelJob | dispatchStatus | resultJob | failedJob | reaperJobs =>
    cases h
    exact updateJobs_guarded _ _
  | resultLease | failedLease | reaperLeases => cases h; exact deleteLeases_guarded _
  | heartbeatLease => cases h; exact updateLeases_guarded _ _
  | resultHistory | failedHistory | reaperHistory => cases h; exact terminateHistory_guarded _ _
  | submitTransition | cancelTransition | dispatchTransition | resultCommit | resultTransition
  | failedTransition =>
    cases h
    exact insert_guarded (by simp [Write.lock])
  | reaperTransitions ctx ids =>
    cases h
    exact insert_guarded (by simp [Write.lock])
  | dispatchHistory g => exact absurd rfl (hp g)
  | dispatchRead | dispatchClock | dispatchToken | done => cases h

theorem leads_issuing {p q : Prog} {rows : List Row} (h : p.Leads rows q)
    (hi : q.issuing = true) : p.issuing = true ∨ ∃ ctx w b j, p = .dispatchLock ctx w b j := by
  cases h with
  | dispatchLock => exact .inr ⟨_, _, _, _, rfl⟩
  | dispatchLease | dispatchStatus => exact .inl rfl
  | _ => cases hi

theorem reads_issuing {p q : Prog} {e e' : Env} (h : p.Reads e e' q) :
    p.issuing = true ∧ e ≤ e' ∧ (∀ ctx w b j, q ≠ .dispatchLock ctx w b j) ∧
      ∀ g, q ≠ .dispatchHistory g := by
  have up : e ≤ (nextval e).1 := ⟨Nat.le_succ _, Int.le_refl _⟩
  cases h with
  | clockFirst | clock => exact ⟨rfl, le_rfl, by simp, by simp⟩
  | tokenFirst | token => exact ⟨rfl, up, by simp, by simp⟩

/-- A transaction holds what it writes, and the advisory lock while it issues. -/
structure Locked (held : Lock → Prop) (x : SqlTxn) : Prop where
  writes : ∀ w ∈ x.writes, ∀ k, w.lock = some k → held k
  issuing : x.pc.issuing = true → held .advisory
  locking : ∀ ctx w b j, x.pc = .dispatchLock ctx w b j → ∀ c, x.cursor = some c →
    c = ⟨[.new], []⟩ ∨ held .advisory

namespace Locked

variable {held held' : Lock → Prop} {x : SqlTxn} {st : Sql.Stmt} {next : List Row → Prog}

theorem start {p : Prog} (hp : p.entry = true) : Locked held ⟨p, none, [], false⟩ := by
  refine ⟨by simp, ?_, ?_⟩
  · intro hi
    cases p <;> first | cases hp; done | cases hi
  · intro ctx w b j _ c hc
    cases hc

theorem grow (h : Locked held x) (hg : ∀ k, held k → held' k) : Locked held' x :=
  ⟨fun w hw k hk => hg k (h.writes w hw k hk), fun hi => hg _ (h.issuing hi),
    fun ctx w b j hp c hc => (h.locking ctx w b j hp c hc).imp_right (hg _)⟩

theorem scan (h : Locked held x) (cmd : x.pc.code = .sql st next) {rows : List Row}
    (perm : rows.Perm (st.scan db)) : Locked held { x with cursor := some ⟨rows, []⟩ } := by
  refine ⟨h.writes, h.issuing, ?_⟩
  intro ctx w b j hp c hc
  cases hc
  rw [show x.pc = .dispatchLock ctx w b j from hp] at cmd
  cases cmd
  exact .inl (by rw [List.perm_singleton.mp perm])

theorem violated (h : Locked held x) : Locked held { x with failed := true } :=
  ⟨h.writes, h.issuing, h.locking⟩

theorem taken (h : Locked held x) (cmd : x.pc.code = .sql st next) {r : Row}
    {rest affected : List Row} : Locked (fun k => k ∈ st.locks r ∨ held k)
      { x with cursor := some ⟨rest, affected ++ [r]⟩, writes := x.writes ++ st.writes r } := by
  refine ⟨?_, fun hi => .inr (h.issuing hi), ?_⟩
  · intro w hw k hk
    rcases List.mem_append.mp hw with hw | hw
    · exact .inr (h.writes w hw k hk)
    by_cases hp : ∃ g, x.pc = .dispatchHistory g
    · obtain ⟨g, hp⟩ := hp
      have held := h.issuing (by rw [hp]; rfl)
      rw [hp] at cmd
      cases cmd
      cases List.mem_singleton.mp hw
      cases hk
      exact .inr held
    · exact .inl (code_guarded cmd (fun g hg => hp ⟨g, hg⟩) r w hw k hk)
  · intro ctx w b j hp c _
    rw [show x.pc = .dispatchLock ctx w b j from hp] at cmd
    cases cmd
    exact .inr (.inl List.mem_cons_self)

theorem passed (h : Locked held x) (cmd : x.pc.code = .sql st next) {r : Row}
    {rest affected : List Row} (why : st.recheck db r = false ∨ st.skipLocked = true) :
    Locked held { x with cursor := some ⟨rest, affected⟩ } := by
  refine ⟨h.writes, h.issuing, ?_⟩
  intro ctx w b j hp c _
  rw [show x.pc = .dispatchLock ctx w b j from hp] at cmd
  cases cmd
  rcases why with why | why <;> cases why

theorem close (h : Locked held x) (cmd : x.pc.code = .sql st next) {c : Cursor Row}
    (cur : x.cursor = some c) (exhausted : st.exhausted c = true) :
    Locked held { x with pc := next c.affected, cursor := none } := by
  refine ⟨h.writes, ?_, ?_⟩
  · intro hi
    rcases leads_issuing (Prog.leads cmd c.affected) hi with hi | ⟨ctx, w, b, j, hp⟩
    · exact h.issuing hi
    · rcases h.locking ctx w b j hp c cur with rfl | held
      · rw [hp] at cmd
        cases cmd
        cases exhausted
      · exact held
  · intro ctx w b j _ c hc
    cases hc

theorem call (h : Locked held x) {f : Env → Env × Prog} (cmd : x.pc.code = .call f) (e : Env) :
    e ≤ (f e).1 ∧ Locked held { x with pc := (f e).2 } := by
  obtain ⟨issuing, le, other, _⟩ := reads_issuing (Prog.reads cmd e)
  refine ⟨le, h.writes, fun _ => h.issuing issuing, ?_⟩
  intro ctx w b j hp
  exact absurd hp (other ctx w b j)

end Locked

end Dispatcher
