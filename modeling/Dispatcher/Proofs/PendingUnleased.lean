import Dispatcher.Sql.Dispatching
import Dispatcher.Sql.Reaping

namespace Dispatcher
open Tables ReadCommitted Runs

/-- A lease belongs to a job that is there and not PENDING. -/
def JobView.LeaseInUse (v : JobView) : Prop :=
  v.lease.isSome = true → ∃ s, v.status = some s ∧ s ≠ .pending

def LeasesInUse (db : Db) : Prop := ∀ j, (db.view j).LeaseInUse

theorem LeasesInUse.unleased {db : Db} {j : JobId} (h : LeasesInUse db)
    (pending : db.statusOf j = some .pending) : db.leases.lookup j = none := by
  by_contra hl
  obtain ⟨s, hs, hn⟩ := h j (Option.isSome_iff_ne_none.mpr hl)
  rw [Db.view_status, pending] at hs
  exact hn (Option.some.inj hs).symm

/-- The writes that make no lease useless: all but a new lease and a job put back. -/
structure Write.Harmless (w : Write) : Prop where
  lease : ∀ row, w ≠ .insertLease row
  patch : ∀ j patch, w = .patchJob j patch → patch.status ≠ .pending

theorem on_leaseInUse {w : Write} {v : JobView} (h : v.LeaseInUse) (hw : w.Harmless) :
    (w.on v).LeaseInUse := by
  intro hl
  cases w with
  | insertLease row => exact absurd rfl (hw.lease row)
  | deleteLease => cases hl
  | insertJob row =>
    obtain ⟨s, hs, hn⟩ := h hl
    obtain ⟨r, hr, rfl⟩ := Option.map_eq_some_iff.mp hs
    exact ⟨r.status, by simp [Write.on, JobView.status, hr], hn⟩
  | patchJob j patch =>
    obtain ⟨s, hs, _⟩ := h hl
    obtain ⟨r, hr, _⟩ := Option.map_eq_some_iff.mp hs
    refine ⟨patch.status, ?_, hw.patch j patch rfl⟩
    simp [Write.on, JobView.status, hr, Db.JobPatch.on]
  | extendLease => exact h (by simpa [Write.on] using hl)
  | _ => exact h hl

theorem view_leaseInUse {db : Db} {ws : List Write} (h : LeasesInUse db)
    (hw : ∀ w ∈ ws, w.Harmless) : LeasesInUse (sqlMachine.view db ws) := by
  induction ws using List.reverseRecOn with
  | nil => exact h
  | append_singleton ws w ih =>
    intro j
    have before := ih fun v hv => hw v (List.mem_append_left _ hv)
    rw [view_snoc]
    split
    · exact on_leaseInUse (before j) (hw w (List.mem_append_right _ List.mem_cons_self))
    · exact before j

/-- Whoever commits meanwhile, a commit of these writes leaves no lease useless. -/
def Settled (held : Lock → Prop) (db : Db) (ws : List Write) : Prop :=
  sqlProtection.Ensures LeasesInUse (fun _ db' => LeasesInUse db') held db ws

theorem Settled.harmless {held : Lock → Prop} {db : Db} {ws vs : List Write}
    (h : Settled held db ws) (hv : ∀ w ∈ vs, w.Harmless) : Settled held db (ws ++ vs) :=
  h.append fun _ _ before => view_leaseInUse before hv

/-- A job may be put back once its lease is deleted. -/
theorem Settled.requeue {held : Lock → Prop} {db : Db} {ws : List Write} {j : JobId}
    (h : Settled held db ws) (unleased : ∀ db', ((sqlMachine.view db' ws).view j).lease = none)
    (patch : Db.JobPatch) : Settled held db (ws ++ [.patchJob j patch]) := by
  apply h.append
  intro other _ before i
  rw [Machine.view_cons, Machine.view_nil, sqlMachine_apply, apply_view]
  by_cases hi : j = i
  · intro hl
    simp [Write.subject, Write.on, hi, hi ▸ unleased other] at hl
  · simpa [Write.subject, hi] using before i

theorem Settled.dispatched {held : Lock → Prop} {db : Db} {g : Grant}
    (locked : held (.job g.jobId)) (pending : db.statusOf g.jobId = some .pending) :
    Settled held db g.writes := by
  intro other agree before
  have status : other.statusOf g.jobId = some .pending :=
    (Lock.Agree.status (agree _ locked)).trans pending
  have unleased := before.unleased status
  intro k
  rw [view_dispatched g unleased]
  split
  · rename_i hk
    subst hk
    intro _
    obtain ⟨r, hr, _⟩ := Option.map_eq_some_iff.mp status
    have job : (other.view g.jobId).job = some r := hr
    exact ⟨.dispatched, by simp [JobEvent.apply, JobView.status, job, Db.JobPatch.on], by simp⟩
  · exact before k

/-- The statements that may put a job back. -/
def Prog.requeues : Prog → Bool
  | failedJob _ msg => msg.temporary
  | reaperJobs .. => true
  | _ => false

/-- Apart from dispatches and temporary failures, no statement can leave a lease useless. -/
theorem code_harmless {p : Prog} {st : Sql.Stmt} {next : List Row → Prog}
    (cmd : p.code = .sql st next) (hd : p.drafted = none) (hr : p.requeues = false) (r : Row) :
    ∀ w ∈ st.writes r, w.Harmless := by
  intro w hw
  cases p with
  | dispatchLock | dispatchRead | dispatchClock | dispatchToken | dispatchLease | dispatchStatus
  | dispatchHistory | dispatchTransition => cases hd
  | reaperJobs => cases hr
  | done => cases cmd
  | dispatchSelect | reaperSelect =>
    cases cmd
    cases hw
  | failedJob ctx msg =>
    cases cmd
    obtain ⟨j, _, rfl⟩ := Sql.mem_updateJobs hw
    refine ⟨by simp, ?_⟩
    intro _ _ hc
    cases hc
    simp [show msg.temporary = false from hr]
  | cancelJob | resultJob =>
    cases cmd
    obtain ⟨j, _, rfl⟩ := Sql.mem_updateJobs hw
    refine ⟨by simp, ?_⟩
    intro _ _ hc
    cases hc
    simp
  | reaperTransitions ctx ids =>
    cases cmd
    obtain ⟨j, _, rfl⟩ := List.mem_map.mp hw
    exact ⟨by simp, by simp⟩
  | submitJob | submitTransition | cancelTransition | resultCommit | resultTransition
  | failedTransition =>
    cases cmd
    cases List.mem_singleton.mp hw
    exact ⟨by simp, by simp⟩
  | resultLease | failedLease | reaperLeases =>
    cases cmd
    obtain ⟨j, token, _, rfl⟩ := Sql.mem_deleteLeases hw
    exact ⟨by simp, by simp⟩
  | heartbeatLease =>
    cases cmd
    obtain ⟨j, token, _, rfl⟩ := Sql.mem_updateLeases hw
    exact ⟨by simp, by simp⟩
  | resultHistory | failedHistory | reaperHistory =>
    cases cmd
    obtain ⟨j, fence, _, rfl⟩ := Sql.mem_terminateHistory hw
    exact ⟨by simp, by simp⟩

/-- The UPDATE of a temporary `onFailed` whose DELETE found no lease: it does not
find the job DISPATCHED. -/
def Unraced (db : Db) (x : SqlTxn) : Prop :=
  ∀ ctx msg, x.pc = .failedJob ctx msg → msg.temporary = true → x.writes = [] →
    db.statusOf msg.jobId ≠ some .dispatched

def Prog.fails : Prog → Option JobId
  | failedLease _ msg | failedJob _ msg => if msg.temporary then some msg.jobId else none
  | _ => none

/-- The assertion of a transaction: it will leave no lease useless, an `onFailed`
that has deleted a lease has deleted that of its job, and a dispatch that has its
job has not failed. -/
structure Unclogging (held : Lock → Prop) (db : Db) (x : SqlTxn) : Prop where
  locked : Locked held x
  dispatching : Dispatching held db x
  reaping : Reaping held db x
  settled : x.pc.drafted = none → Settled held db x.writes
  failing : ∀ j, x.pc.fails = some j →
    x.writes = [] ∨ ∀ db', ((sqlMachine.view db' x.writes).view j).lease = none
  running : x.pc.drafted ≠ none → x.failed = false

namespace Unclogging

variable {held held' : Lock → Prop} {db db' : Db} {e : Env} {x : SqlTxn} {st : Sql.Stmt}
  {next : List Row → Prog} {r : Row} {rows rest affected : List Row}

theorem start {p : Prog} (hp : p.entry = true) : Unclogging held db ⟨p, none, [], false⟩ := by
  refine ⟨.start hp, .start hp, .start hp, ?_, fun _ _ => .inl rfl, fun _ => rfl⟩
  intro _ other _ before
  exact before

theorem stable (h : Unclogging held db x) (agree : ∀ k, held k → k.Agree db db') :
    Unclogging held db' x :=
  { h with
    dispatching := h.dispatching.stable (fun _ hk => hk) agree
    reaping := h.reaping.stable (fun _ hk => hk) agree
    settled := fun hp => (h.settled hp).stable (fun _ hk => hk) agree }

theorem grow (h : Unclogging held db x) (hg : ∀ k, held k → held' k) : Unclogging held' db x :=
  { h with
    locked := h.locked.grow hg
    dispatching := h.dispatching.stable hg fun k _ => sqlProtection.refl k db
    reaping := h.reaping.stable hg fun k _ => sqlProtection.refl k db
    settled := fun hp => (h.settled hp).grow hg }

theorem scan (h : Unclogging held db x) (cmd : x.pc.code = .sql st next) (idle : x.cursor = none)
    (perm : rows.Perm (st.scan (sqlMachine.view db x.writes))) :
    Unclogging held db { x with cursor := some ⟨rows, []⟩ } :=
  { h with
    locked := h.locked.scan cmd perm
    dispatching := h.dispatching.scan cmd idle perm
    reaping := h.reaping.scan cmd perm }

/-- No statement of a dispatch violates a constraint. -/
theorem clean (h : Unclogging held db x) (hI : LeasesInUse db) (cmd : x.pc.code = .sql st next)
    (cur : x.cursor = some ⟨r :: rest, affected⟩) (hp : x.pc.drafted ≠ none) :
    st.violates (sqlMachine.view db x.writes) r = false := by
  obtain ⟨⟨j, ws⟩, hd⟩ := Option.ne_none_iff_exists'.mp hp
  obtain ⟨_, pending⟩ := h.dispatching.locked j ws hd
  obtain ⟨all, written⟩ := h.dispatching.during j ws hd _ cur
  generalize hpc : x.pc = p at cmd hd all written
  cases p with
  | dispatchLease g =>
    cases cmd
    cases hd
    have first : affected = [] := by
      cases affected with
      | nil => rfl
      | cons q qs => simp at all
    have nothing : x.writes = [] := by simpa [first] using written
    obtain ⟨row, there, _⟩ := Option.map_eq_some_iff.mp pending
    have unleased := hI.unleased pending
    simp [Sql.insertLease, Grant.lease, nothing, unleased, there]
  | dispatchLock | dispatchStatus | dispatchHistory | dispatchTransition =>
    cases cmd
    rfl
  | dispatchRead | dispatchClock | dispatchToken => cases cmd
  | _ => cases hd

theorem violated (h : Unclogging held db x) (hI : LeasesInUse db) (cmd : x.pc.code = .sql st next)
    (cur : x.cursor = some ⟨r :: rest, affected⟩)
    (violates : st.violates (sqlMachine.view db x.writes) r = true) :
    Unclogging held db { x with failed := true } := by
  have running : x.pc.drafted ≠ none → true = false := by
    intro hp
    rw [h.clean hI cmd cur hp] at violates
    exact violates.symm
  exact ⟨h.locked.violated, h.dispatching.violated, h.reaping.violated, h.settled, h.failing,
    running⟩

/-- The UPDATE of `onFailed` affects the job of the message, when it is DISPATCHED. -/
theorem failedJob_recheck {ctx : Ctx} {msg : JobFailed} (hp : x.pc = .failedJob ctx msg)
    (cmd : x.pc.code = .sql st next) (recheck : st.recheck db r = true) :
    r = .job msg.jobId ∧ db.statusOf msg.jobId = some .dispatched := by
  rw [hp] at cmd
  cases cmd
  obtain ⟨q, rfl, hq, hs⟩ := updateJobs_recheck recheck
  simp only [Bool.and_eq_true, decide_eq_true_eq] at hs
  rw [hs.1] at hq
  exact ⟨by rw [hs.1], by simp [Db.statusOf, hq, hs.2]⟩

theorem settled_taken (h : Unclogging held db x) (unraced : Unraced db x)
    (cmd : x.pc.code = .sql st next) (recheck : st.recheck (sqlMachine.view db x.writes) r = true)
    (hd : x.pc.drafted = none) : Settled held db (x.writes ++ st.writes r) := by
  have before := h.settled hd
  cases hr : x.pc.requeues with
  | false => exact before.harmless (code_harmless cmd hd hr r)
  | true =>
    generalize hpc : x.pc = p at cmd hd hr
    cases p with
    | failedJob ctx msg =>
      obtain ⟨rfl, status⟩ := failedJob_recheck hpc (hpc ▸ cmd) recheck
      have temporary : msg.temporary = true := hr
      cases cmd
      rcases h.failing msg.jobId (by simp [hpc, Prog.fails, temporary]) with nothing | unleased
      · rw [nothing] at status
        exact absurd status (unraced ctx msg hpc temporary nothing)
      · exact before.requeue unleased _
    | reaperJobs ctx ids =>
      cases cmd
      obtain ⟨q, rfl, _, hs⟩ := updateJobs_recheck recheck
      rw [Bool.and_eq_true] at hs
      have mine : q.jobId ∈ ids := List.contains_iff_mem.mp hs.1
      exact before.requeue (h.reaping.unleased (by rw [hpc]; rfl) mine) _
    | _ => cases hr

theorem failing_taken (h : Unclogging held db x) (unraced : Unraced db x)
    (cmd : x.pc.code = .sql st next) (recheck : st.recheck (sqlMachine.view db x.writes) r = true)
    {j : JobId} (hj : x.pc.fails = some j) (db' : Db) :
    ((sqlMachine.view db' (x.writes ++ st.writes r)).view j).lease = none := by
  generalize hpc : x.pc = p at cmd hj
  cases p with
  | failedLease ctx msg =>
    simp only [Prog.fails, Option.ite_none_right_eq_some, Option.some.injEq] at hj
    obtain ⟨_, rfl⟩ := hj
    cases cmd
    obtain ⟨l, rfl, _, hl⟩ := deleteLeases_recheck recheck
    have key : l.jobId = msg.jobId := of_decide_eq_true hl
    change ((sqlMachine.view db' (x.writes ++ [.deleteLease l.jobId])).view msg.jobId).lease = none
    simp [view_snoc, Write.subject, Write.on, key]
  | failedJob ctx msg =>
    have fails : x.pc.fails = some j := by rw [hpc]; exact hj
    simp only [Prog.fails, Option.ite_none_right_eq_some, Option.some.injEq] at hj
    obtain ⟨temporary, rfl⟩ := hj
    obtain ⟨rfl, status⟩ := failedJob_recheck hpc (hpc ▸ cmd) recheck
    cases cmd
    rcases h.failing msg.jobId fails with nothing | unleased
    · rw [nothing] at status
      exact absurd status (unraced ctx msg hpc temporary nothing)
    · change ((sqlMachine.view db' (x.writes ++ [.patchJob msg.jobId _])).view msg.jobId).lease = none
      rw [view_snoc]
      simp [Write.subject, Write.on, unleased db']
  | _ => cases hj

theorem taken (h : Unclogging held db x) (unraced : Unraced db x)
    (cmd : x.pc.code = .sql st next) (cur : x.cursor = some ⟨r :: rest, affected⟩)
    (recheck : st.recheck (sqlMachine.view db x.writes) r = true) :
    Unclogging (fun k => k ∈ st.locks r ∨ held k) db
      { x with cursor := some ⟨rest, affected ++ [r]⟩, writes := x.writes ++ st.writes r } where
  locked := h.locked.taken cmd
  dispatching := h.dispatching.taken cmd cur recheck
  reaping := h.reaping.taken cmd cur recheck
  settled hd := (h.settled_taken unraced cmd recheck hd).grow fun _ hk => .inr hk
  failing _ hj := .inr (h.failing_taken unraced cmd recheck hj)
  running := h.running

theorem passed (h : Unclogging held db x) (cmd : x.pc.code = .sql st next)
    (cur : x.cursor = some ⟨r :: rest, affected⟩)
    (why : st.recheck (sqlMachine.view db x.writes) r = false ∨ st.skipLocked = true) :
    Unclogging held db { x with cursor := some ⟨rest, affected⟩ } :=
  { h with
    locked := h.locked.passed cmd why
    dispatching := h.dispatching.passed cmd cur why
    reaping := h.reaping.passed cmd cur why }

theorem fails_leads {p q : Prog} {j : JobId} (led : p.Leads rows q) (h : q.fails = some j) :
    p.fails = some j := by
  cases led with
  | failedLease => exact h
  | _ => cases h

theorem drafted_done {p q : Prog} (led : p.Leads rows q) (hp : p.drafted ≠ none)
    (h : q.drafted = none) : ∃ g, p = .dispatchTransition g := by
  cases led with
  | dispatchTransition => exact ⟨_, rfl⟩
  | dispatchLock | dispatchLease | dispatchStatus | dispatchHistory => cases h
  | _ => exact absurd rfl hp

theorem close (h : Unclogging held db x) (cmd : x.pc.code = .sql st next) {c : Cursor Row}
    (cur : x.cursor = some c) (ok : x.failed = false) (exhausted : st.exhausted c = true) :
    Unclogging held db { x with pc := next c.affected, cursor := none } := by
  refine ⟨h.locked.close cmd cur exhausted, h.dispatching.close cmd cur exhausted,
    h.reaping.close cmd cur exhausted, ?_, ?_, fun _ => ok⟩
  · intro hd
    by_cases hp : x.pc.drafted = none
    · exact h.settled hp
    obtain ⟨g, hg⟩ := drafted_done (Prog.leads cmd _) hp hd
    obtain ⟨locked, pending, written⟩ := h.dispatching.written hg cmd cur exhausted
    rw [written]
    exact .dispatched locked pending
  · intro j hj
    exact h.failing j (fails_leads (Prog.leads cmd _) hj)

theorem fails_reads {p q : Prog} {e e' : Env} (read : p.Reads e e' q) : q.fails = none := by
  cases read <;> rfl

theorem call (h : Unclogging held db x) {f : Env → Env × Prog} (cmd : x.pc.code = .call f)
    (e : Env) : e ≤ (f e).1 ∧ Unclogging held db { x with pc := (f e).2 } := by
  obtain ⟨le, locked⟩ := h.locked.call cmd e
  obtain ⟨same, _⟩ := drafted_reads (Prog.reads cmd e)
  refine ⟨le, locked, h.dispatching.call cmd e, .call cmd e, ?_, ?_, ?_⟩
  · intro hd
    exact h.settled (same ▸ hd)
  · intro j hj
    rw [fails_reads (Prog.reads cmd e)] at hj
    cases hj
  · intro hd
    exact h.running (same ▸ hd)

theorem commit (h : Unclogging held db x) (hI : LeasesInUse db) (cmd : x.pc.code = .finish) :
    LeasesInUse (sqlMachine.view db x.writes) := by
  apply (h.settled ?_).now hI
  cases hp : x.pc with
  | done => rfl
  | _ =>
    rw [hp] at cmd
    cases cmd

end Unclogging

def unclogOutline : Outline sqlMachine sqlProtection where
  starts _ := True
  allowed := Unraced
  I db _ := LeasesInUse db
  A held db _ x := Unclogging held db x
  guarded h := h.locked.writes
  grow hg h := h.grow hg
  stable h _ _ agree := h.stable agree
  later hI _ := hI
  start hp _ _ := .start hp
  scan _ h cmd idle perm := h.scan cmd idle perm
  violated hI h cmd cur violates := h.violated hI cmd cur violates
  taken _ h allowed cmd cur _ _ recheck := h.taken allowed cmd cur recheck
  passed _ h cmd cur why := h.passed cmd cur why
  close _ h cmd cur ok exhausted := h.close cmd cur ok exhausted
  call _ h cmd := h.call cmd _
  commit hI h cmd := h.commit hI cmd

/-- No PENDING job has a lease, and no dispatch fails at its insert. -/
structure NothingStuck (s : SqlStore) : Prop where
  unleased : ∀ j, s.db.statusOf j = some .pending → s.db.leases.lookup j = none
  inserts : ∀ t x g, s.txn t = some x → x.pc = .dispatchLease g → x.failed = false

/-- Along every run in which no temporary `onFailed` whose DELETE found no lease
puts its job back, whatever the interleaving. -/
theorem pending_unleased {clockUs : Int} {es : List (Event SqlStore SqlLabel)} {s : SqlStore}
    (h : Run sqlMachine.step (migratedStore clockUs) es s)
    (unraced : ∀ e ∈ es, ∀ t kept x, e.action = .row t kept → e.before.txn t = some x →
      Unraced e.before.db x) : NothingStuck s := by
  have start : LeasesInUse (migratedStore clockUs).db := by
    intro j hl
    cases hl
  have ok : ∀ e ∈ es, unclogOutline.Ok e := fun e he => ⟨fun _ _ _ => trivial, unraced e he⟩
  obtain ⟨inUse, open_⟩ := unclogOutline.sound h (fun _ => rfl) start ok
  constructor
  · intro j hp
    exact inUse.unleased hp
  · intro t x g hx hp
    have drafted : x.pc.drafted ≠ none := by rw [hp]; simp [Prog.drafted]
    exact (open_ t x hx).running drafted

/-- A late `job.failed` deletes no lease; before its UPDATE the reaped job is
dispatched once more. -/
def lateFailureRun : List SqlLabel :=
  submits 0 (.quiet "c1" 1) "k" ++ dispatches 1 (.quiet "c1" 2) "w1" 1 ++
    reaps 2 (.quiet "c2" 70000) 1 1 ++
    [.start 3 (.failedLease (.quiet "c1" 70001) ⟨1, 1, "at capacity", true⟩)] ++
    Label.statement 3 [] ++ dispatches 4 (.quiet "c1" 70002) "w2" 1 ++
    Label.statement 3 [.job 1] ++ Label.statement 3 [.history 1 2] ++ [.commit 3]

def nextDispatch : List SqlLabel :=
  [.start 5 (.dispatchSelect (.quiet "c1" 70003) "w2" false)] ++ Label.statement 5 [.job 1] ++
    Label.statement 5 [.new] ++ [.call 5, .call 5, .scan 5 [.new], .row 5 []]

/-- The job is PENDING with the new lease, and the next dispatch fails on its insert. -/
theorem lateFailureRun_stuck : ∃ s, exec sqlMachine.step (migratedStore 0) lateFailureRun = some s ∧
    ¬ NothingStuck s ∧ ∃ s' x, exec sqlMachine.step s nextDispatch = some s' ∧
      s'.txn 5 = some x ∧ x.failed = true := by
  obtain ⟨s, hs, hp⟩ : ∃ s, exec sqlMachine.step (migratedStore 0) lateFailureRun = some s ∧
      (decide (s.db.statusOf 1 = some .pending) && (s.db.leases.lookup 1).isSome &&
        (exec sqlMachine.step s nextDispatch).any fun s' => (s'.txn 5).any Txn.failed) = true :=
    exec_any (by decide)
  simp only [Bool.and_eq_true, decide_eq_true_eq] at hp
  obtain ⟨⟨pending, leased⟩, failed⟩ := hp
  obtain ⟨s', hs', hx⟩ := exec_any failed
  obtain ⟨x, hx, hf⟩ := (Option.any_eq_true _ _).mp hx
  refine ⟨s, hs, ?_, s', x, hs', hx, hf⟩
  intro fine
  rw [fine.unleased 1 pending] at leased
  cases leased

/-- A job handed back by the holder of its lease. -/
def rejectedRun : List SqlLabel :=
  submits 0 (.quiet "c1" 1) "k" ++ dispatches 1 (.quiet "c1" 2) "w1" 1 ++
    [.start 3 (.failedLease (.quiet "c1" 3) ⟨1, 1, "at capacity", true⟩)] ++
    Label.statement 3 [.lease 1 1] ++ Label.statement 3 [.job 1] ++
    Label.statement 3 [.history 1 1] ++ [.commit 3]

theorem pending_unleased_rejectedRun : ∃ s,
    exec sqlMachine.step (migratedStore 0) rejectedRun = some s ∧
    s.db.statusOf 1 = some .pending ∧ NothingStuck s := by
  obtain ⟨s, hs, hp⟩ : ∃ s, exec sqlMachine.step (migratedStore 0) rejectedRun = some s ∧
      decide (s.db.statusOf 1 = some .pending) = true := exec_any (by decide)
  refine ⟨s, hs, of_decide_eq_true hp, pending_unleased (run_of_exec rejectedRun hs) ?_⟩
  have wrote : ∀ e ∈ trace sqlMachine.step (migratedStore 0) rejectedRun, (match e.action with
      | .row t _ => (e.before.txn t).all fun x => match x.pc with
        | .failedJob .. => !x.writes.isEmpty
        | _ => true
      | _ => true) = true := List.all_eq_true.mp (by decide)
  intro e he t kept x ha hx ctx msg hp _ nothing
  have hw := wrote e he
  simp [ha, hx, hp, nothing] at hw

end Dispatcher
