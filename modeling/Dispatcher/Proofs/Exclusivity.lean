import Dispatcher.Sql.Dispatching
import Dispatcher.Sql.Reaping

namespace Dispatcher
open Tables ReadCommitted Runs

/-- What one step does to one job: nothing, a dispatch or a reap, the last two
with one row that says so. -/
inductive Turned (j : JobId) (db db' : Db) : Prop where
  | kept (status : db'.statusOf j = db.statusOf j)
      (lease : db'.leases.lookup j = db.leases.lookup j)
      (rows : db'.transitionsOf j = db.transitionsOf j)
  | dispatched (pending : db.statusOf j = some .pending) (unleased : db.leases.lookup j = none)
      (status : db'.statusOf j = some .dispatched) (leased : (db'.leases.lookup j).isSome = true)
      (row : ∃ t, db'.transitionsOf j = db.transitionsOf j ++ [t] ∧
        t.edge = (some .pending, some .dispatched))
  | reaped (dispatched : db.statusOf j = some .dispatched)
      (leased : (db.leases.lookup j).isSome = true) (status : db'.statusOf j = some .pending)
      (unleased : db'.leases.lookup j = none)
      (row : ∃ t, db'.transitionsOf j = db.transitionsOf j ++ [t] ∧
        t.edge = (some .dispatched, some .pending))

/-- A job is either DISPATCHED with a lease, or without one and PENDING. -/
structure LeasedIffDispatched (db : Db) : Prop where
  leased : ∀ j, db.statusOf j = some .dispatched → (db.leases.lookup j).isSome = true
  dispatched : ∀ j, (db.leases.lookup j).isSome = true → db.statusOf j = some .dispatched
  pending : ∀ j s, db.statusOf j = some s → s = .pending ∨ s = .dispatched

theorem LeasedIffDispatched.unleased {db : Db} {j : JobId} (h : LeasedIffDispatched db)
    (pending : db.statusOf j = some .pending) : db.leases.lookup j = none := by
  by_contra hl
  rw [h.dispatched j (Option.isSome_iff_ne_none.mpr hl)] at pending
  cases pending

theorem LeasedIffDispatched.turned {db db' : Db} (h : LeasedIffDispatched db)
    (ht : ∀ j, Turned j db db') : LeasedIffDispatched db' := by
  refine ⟨?_, ?_, ?_⟩
  · intro j hs
    cases ht j with
    | kept status lease rows =>
      rw [lease]
      exact h.leased j (status ▸ hs)
    | dispatched pending unleased status leased row => exact leased
    | reaped dispatched leased status unleased row =>
      rw [status] at hs
      cases hs
  · intro j hl
    cases ht j with
    | kept status lease rows =>
      rw [status]
      exact h.dispatched j (lease ▸ hl)
    | dispatched pending unleased status leased row => exact status
    | reaped dispatched leased status unleased row =>
      rw [unleased] at hl
      cases hl
  · intro j s hs
    cases ht j with
    | kept status lease rows => exact h.pending j s (status ▸ hs)
    | dispatched pending unleased status leased row =>
      rw [status] at hs
      exact .inr (Option.some.inj hs).symm
    | reaped dispatched leased status unleased row =>
      rw [status] at hs
      exact .inl (Option.some.inj hs).symm

/-- Whoever commits meanwhile, a commit of these writes turns each job once or not at all. -/
def Turns (held : Lock → Prop) (db : Db) (ws : List Write) : Prop :=
  sqlProtection.Ensures LeasedIffDispatched (fun db db' => ∀ j, Turned j db db') held db ws

theorem turns_dispatched {held : Lock → Prop} {db : Db} {g : Grant}
    (locked : held (.job g.jobId)) (pending : db.statusOf g.jobId = some .pending) :
    Turns held db g.writes := by
  intro other agree before j
  have status : other.statusOf g.jobId = some .pending :=
    (Lock.Agree.status (agree _ locked)).trans pending
  have unleased := before.unleased status
  have after := view_dispatched g unleased j
  by_cases hj : g.jobId = j
  · subst hj
    rw [if_pos rfl] at after
    obtain ⟨r, hr, _⟩ := Option.map_eq_some_iff.mp status
    apply Turned.dispatched status unleased
    · rw [← Db.view_status, after]
      have job : (other.view g.jobId).job = some r := hr
      simp [JobEvent.apply, JobView.status, job, Db.JobPatch.on]
    · have lease := congrArg JobView.lease after
      exact Option.isSome_iff_exists.mpr ⟨_, lease⟩
    · exact ⟨_, congrArg JobView.transitions after, rfl⟩
  · rw [if_neg hj] at after
    exact .kept (congrArg JobView.status after) (congrArg JobView.lease after)
      (congrArg JobView.transitions after)

/-- What a reaper writes before its rows of JobTransitions. -/
def Write.handsBack : Write → Bool
  | deleteLease _ | terminate .. => true
  | patchJob _ patch => patch.status = .pending
  | _ => false

theorem view_unpatched {ws : List Write} {j : JobId} (h : ∀ w ∈ ws, w.handsBack = true)
    (hn : ∀ patch, .patchJob j patch ∉ ws) (db : Db) :
    (sqlMachine.view db ws).statusOf j = db.statusOf j := by
  have same : (sqlMachine.view db ws).jobs.lookup j = db.jobs.lookup j := by
    apply sqlProtection.view (k := .job j)
    intro w hw touched
    have back := h w hw
    cases w with
    | patchJob i patch =>
      cases touched
      exact hn patch hw
    | insertJob => cases back
    | _ => cases touched
  rw [Db.statusOf, same, Db.statusOf]

theorem on_handsBack {w : Write} {v : JobView} (hw : w.handsBack = true)
    (hv : v.status = some .pending) : (w.on v).status = some .pending := by
  cases w with
  | patchJob i patch =>
    obtain ⟨r, hr, _⟩ := Option.map_eq_some_iff.mp hv
    have pending : patch.status = .pending := of_decide_eq_true hw
    simp [Write.on, JobView.status, hr, Db.JobPatch.on, pending]
  | deleteLease | terminate => exact hv
  | _ => cases hw

theorem view_patched {ws : List Write} {j : JobId} {db : Db} (h : ∀ w ∈ ws, w.handsBack = true)
    (hp : ∃ patch, .patchJob j patch ∈ ws) (there : db.statusOf j ≠ none) :
    (sqlMachine.view db ws).statusOf j = some .pending := by
  induction ws using List.reverseRecOn with
  | nil =>
    obtain ⟨patch, hm⟩ := hp
    cases hm
  | append_singleton ws w ih =>
    have earlier : ∀ v ∈ ws, v.handsBack = true := fun v hv => h v (List.mem_append_left _ hv)
    have back := h w (List.mem_append_right _ List.mem_cons_self)
    rw [← Db.view_status, view_snoc]
    by_cases before : ∃ patch, .patchJob j patch ∈ ws
    · have pending := ih earlier before
      split
      · exact on_handsBack back pending
      · exact pending
    · obtain ⟨patch, hm⟩ := hp
      have last : .patchJob j patch = w := by
        rcases List.mem_append.mp hm with hm | hm
        · exact absurd ⟨patch, hm⟩ before
        · exact List.mem_singleton.mp hm
      have same := view_unpatched earlier (fun q hq => before ⟨q, hq⟩) db
      obtain ⟨s, hs⟩ := Option.ne_none_iff_exists'.mp there
      obtain ⟨r, hr, _⟩ := Option.map_eq_some_iff.mp (same.trans hs)
      have job : ((sqlMachine.view db ws).view j).job = some r := hr
      rw [← last] at back ⊢
      have pending : patch.status = .pending := of_decide_eq_true back
      simp [Write.subject, Write.on, JobView.status, job, Db.JobPatch.on, pending]

/-- Rows of JobTransitions leave jobs and leases alone, and each job gets its own. -/
theorem view_logged (ctx : Ctx) (ids : List JobId) (db : Db) (j : JobId) :
    (sqlMachine.view db (ids.map fun i =>
      .insertTransition (JobEvent.log ctx i (some .dispatched) .pending))).view j =
      { db.view j with
        transitions := (db.view j).transitions ++ (ids.filter fun i => i = j).map fun i =>
          JobEvent.log ctx i (some .dispatched) .pending } := by
  induction ids generalizing db with
  | nil => simp
  | cons i rest ih =>
    rw [List.map_cons, Machine.view_cons, ih, sqlMachine_apply, apply_view]
    by_cases hi : i = j <;> simp [Write.subject, Write.on, JobEvent.log, hi]

theorem view_silent {ws : List Write} (h : ∀ w ∈ ws, w.handsBack = true) (db : Db) (j : JobId) :
    (sqlMachine.view db ws).transitionsOf j = db.transitionsOf j := by
  induction ws using List.reverseRecOn with
  | nil => rfl
  | append_singleton ws w ih =>
    have earlier := ih fun v hv => h v (List.mem_append_left _ hv)
    have back := h w (List.mem_append_right _ List.mem_cons_self)
    rw [← earlier]
    have after := congrArg JobView.transitions (view_snoc ws w db j)
    refine after.trans ?_
    split
    · cases w <;> first | rfl | cases back
    · rfl

/-- A reaper that has handed back all of its jobs and logged them. -/
theorem turns_reaped {held : Lock → Prop} {db : Db} {ws : List Write} {ids : List JobId} (ctx : Ctx)
    (back : ∀ w ∈ ws, w.handsBack = true) (own : ∀ w ∈ ws, w.subject ∈ ids)
    (distinct : ids.Nodup)
    (leased : ∀ j ∈ ids, held (.lease j) ∧ (db.leases.lookup j).isSome = true)
    (deleted : ∀ j ∈ ids, .deleteLease j ∈ ws)
    (patched : ∀ j ∈ ids, ∃ patch, .patchJob j patch ∈ ws) :
    Turns held db (ws ++ ids.map fun j =>
      .insertTransition (JobEvent.log ctx j (some .dispatched) .pending)) := by
  intro other agree before j
  rw [Machine.view_append]
  have after := view_logged ctx ids (sqlMachine.view other ws) j
  have status := congrArg JobView.status after
  have lease := congrArg JobView.lease after
  have rows := congrArg JobView.transitions after
  by_cases hj : j ∈ ids
  · obtain ⟨locked, there⟩ := leased j hj
    have same : other.leases.lookup j = db.leases.lookup j := agree _ locked
    have was : (other.leases.lookup j).isSome = true := same ▸ there
    have dispatched := before.dispatched j was
    have gone : ((sqlMachine.view other ws).view j).lease = none := by
      apply view_cleared (deleted j hj)
      intro row hm
      cases back _ hm
    apply Turned.reaped dispatched was
    · exact status.trans (view_patched back (patched j hj) (by simp [dispatched]))
    · exact lease.trans gone
    · refine ⟨JobEvent.log ctx j (some .dispatched) .pending, ?_, rfl⟩
      refine rows.trans ?_
      have once : ids.filter (fun i => i = j) = [j] := by
        rw [List.filter_eq, List.count_eq_one_of_mem distinct hj]
        rfl
      rw [once]
      exact congrArg (· ++ _) (view_silent back other j)
  · have untouched : (sqlMachine.view other ws).view j = other.view j := by
      apply view_untouched
      intro w hw he
      exact hj (he ▸ own w hw)
    rw [untouched] at status lease rows
    refine .kept status lease (rows.trans ?_)
    rw [List.filter_eq, List.count_eq_zero_of_not_mem hj]
    exact List.append_nil _

/-- Where a peer's transactions start. -/
def Prog.contends : Prog → Bool
  | dispatchSelect .. | reaperSelect .. => true
  | _ => false

/-- The program points of dispatches and reapers. -/
def Prog.leaderless : Prog → Bool
  | dispatchSelect .. | dispatchLock .. | dispatchRead .. | dispatchClock .. | dispatchToken ..
  | dispatchLease _ | dispatchStatus _ | dispatchHistory _ | dispatchTransition _
  | reaperSelect .. | reaperLeases .. | reaperJobs .. | reaperHistory .. | reaperTransitions ..
  | done => true
  | _ => false

theorem leaderless_leads {p q : Prog} {rows : List Row} (led : p.Leads rows q)
    (h : p.leaderless = true) : q.leaderless = true := by
  cases led <;> first | rfl | cases h

theorem leaderless_reads {p q : Prog} {e e' : Env} (read : p.Reads e e' q) :
    q.leaderless = true ∧ q ≠ .done := by
  cases read <;> exact ⟨rfl, by simp⟩

/-- The last statements of a reaper come in their order. -/
theorem leads_reaped {p : Prog} {rows : List Row} {ctx : Ctx} {ids : List JobId} :
    (p.Leads rows (.reaperHistory ctx ids) → p = .reaperJobs ctx ids) ∧
      (p.Leads rows (.reaperTransitions ctx ids) → p = .reaperHistory ctx ids) := by
  constructor <;> intro led <;> cases led <;> rfl

/-- Until its last statement a reaper only deletes, hands back and terminates. -/
theorem code_handsBack {p : Prog} {st : Sql.Stmt} {next : List Row → Prog} {ids : List JobId}
    (cmd : p.code = .sql st next) (hp : p.reaps = some ids)
    (hn : ∀ ctx, p ≠ .reaperTransitions ctx ids) (r : Row) :
    ∀ w ∈ st.writes r, w.handsBack = true := by
  intro w hw
  cases p with
  | reaperLeases =>
    cases cmd
    obtain ⟨j, token, _, rfl⟩ := Sql.mem_deleteLeases hw
    rfl
  | reaperJobs =>
    cases cmd
    obtain ⟨j, _, rfl⟩ := Sql.mem_updateJobs hw
    rfl
  | reaperHistory =>
    cases cmd
    obtain ⟨j, fence, _, rfl⟩ := Sql.mem_terminateHistory hw
    rfl
  | reaperTransitions ctx ids' =>
    cases hp
    exact absurd rfl (hn ctx)
  | _ => cases hp

/-- The assertion of a peer's transaction. A reaper has handed back each of its
jobs, or has its row still to take; at its end a transaction turns every job once
or not at all. -/
structure Contending (held : Lock → Prop) (db : Db) (x : SqlTxn) : Prop where
  locked : Locked held x
  dispatching : Dispatching held db x
  reaping : Reaping held db x
  leaderless : x.pc.leaderless = true
  back : ∀ ids, x.pc.reaps = some ids → (∀ ctx, x.pc ≠ .reaperTransitions ctx ids) →
    ∀ w ∈ x.writes, w.handsBack = true
  patching : ∀ ctx ids, x.pc = .reaperJobs ctx ids → ∀ j ∈ ids,
    (∃ patch, .patchJob j patch ∈ x.writes) ∨ ∀ c, x.cursor = some c → .job j ∈ c.remaining
  patched : ∀ ctx ids, x.pc = .reaperHistory ctx ids ∨ x.pc = .reaperTransitions ctx ids →
    ∀ j ∈ ids, ∃ patch, .patchJob j patch ∈ x.writes
  logging : ∀ ctx ids, x.pc = .reaperTransitions ctx ids → ∃ ws, (∀ w ∈ ws, w.handsBack = true) ∧
    (x.cursor = none → x.writes = ws) ∧ ∀ c, x.cursor = some c →
      c.affected ++ c.remaining = [.new] ∧ x.writes = ws ++ c.affected.flatMap x.pc.writes
  ended : x.pc = .done → Turns held db x.writes

namespace Contending

variable {held held' : Lock → Prop} {db db' : Db} {e : Env} {x : SqlTxn} {st : Sql.Stmt}
  {next : List Row → Prog} {r : Row} {rows rest affected : List Row}

theorem start {p : Prog} (hp : p.entry = true) (contends : p.contends = true) :
    Contending held db ⟨p, none, [], false⟩ := by
  cases p with
  | dispatchSelect | reaperSelect =>
    exact ⟨.start hp, .start hp, .start hp, rfl, by simp, by simp, by simp, by simp, by simp⟩
  | _ => cases contends

theorem stable (h : Contending held db x) (grow : ∀ k, held k → held' k)
    (agree : ∀ k, held k → k.Agree db db') : Contending held' db' x :=
  { h with
    locked := h.locked.grow grow
    dispatching := h.dispatching.stable grow agree
    reaping := h.reaping.stable grow agree
    ended := fun hp => (h.ended hp).stable grow agree }

theorem violated (h : Contending held db x) : Contending held db { x with failed := true } :=
  ⟨h.locked.violated, h.dispatching.violated, h.reaping.violated, h.leaderless, h.back, h.patching,
    h.patched, h.logging, h.ended⟩

/-- A job that the reaper has not yet handed back is still DISPATCHED. -/
theorem unpatched (h : Contending held db x) (hI : LeasedIffDispatched db) {ctx : Ctx}
    {ids : List JobId} {j : JobId} (hp : x.pc = .reaperJobs ctx ids) (hj : j ∈ ids)
    (hn : ¬ ∃ patch, .patchJob j patch ∈ x.writes) :
    (sqlMachine.view db x.writes).statusOf j = some .dispatched := by
  have reaps : x.pc.reaps = some ids := by rw [hp]; rfl
  have back := h.back ids reaps (by simp [hp])
  rw [view_unpatched back fun patch hm => hn ⟨patch, hm⟩]
  exact hI.dispatched j (h.reaping.leased ids reaps j hj).2

theorem scan (h : Contending held db x) (hI : LeasedIffDispatched db)
    (cmd : x.pc.code = .sql st next) (idle : x.cursor = none)
    (perm : rows.Perm (st.scan (sqlMachine.view db x.writes))) :
    Contending held db { x with cursor := some ⟨rows, []⟩ } := by
  refine { h with locked := h.locked.scan cmd perm, dispatching := h.dispatching.scan cmd idle perm,
                  reaping := h.reaping.scan cmd perm, patching := ?_, logging := ?_ }
  · intro ctx ids hp j hj
    by_cases hd : ∃ patch, .patchJob j patch ∈ x.writes
    · exact .inl hd
    right
    intro c hc
    cases hc
    obtain ⟨r, hr, hs⟩ := Option.map_eq_some_iff.mp (h.unpatched hI hp hj hd)
    have key : r.jobId = j := Table.lookup_key hr
    rw [show x.pc = .reaperJobs ctx ids from hp] at cmd
    cases cmd
    refine perm.mem_iff.mpr (List.mem_map.mpr ⟨r, ?_, by rw [key]⟩)
    exact List.mem_filter.mpr ⟨Table.lookup_mem hr, by simpa [key, hs] using hj⟩
  · intro ctx ids hp
    obtain ⟨ws, back, before, _⟩ := h.logging ctx ids hp
    refine ⟨ws, back, by simp, ?_⟩
    intro c hc
    cases hc
    rw [show x.pc = .reaperTransitions ctx ids from hp] at cmd
    cases cmd
    exact ⟨List.perm_singleton.mp perm, by simpa using before idle⟩

theorem taken (h : Contending held db x) (cmd : x.pc.code = .sql st next)
    (cur : x.cursor = some ⟨r :: rest, affected⟩)
    (recheck : st.recheck (sqlMachine.view db x.writes) r = true) :
    Contending (fun k => k ∈ st.locks r ∨ held k) db
      { x with cursor := some ⟨rest, affected ++ [r]⟩, writes := x.writes ++ st.writes r } := by
  refine ⟨h.locked.taken cmd, h.dispatching.taken cmd cur recheck, h.reaping.taken cmd cur recheck,
    h.leaderless, ?_, ?_, ?_, ?_, ?_⟩
  · intro ids hp hn w hw
    rcases List.mem_append.mp hw with hw | hw
    · exact h.back ids hp hn w hw
    · exact code_handsBack cmd hp hn r w hw
  · intro ctx ids hp j hj
    rcases h.patching ctx ids hp j hj with ⟨patch, hm⟩ | wait
    · exact .inl ⟨patch, List.mem_append_left _ hm⟩
    rcases List.mem_cons.mp (wait _ cur) with rfl | hm
    · rw [show x.pc = .reaperJobs ctx ids from hp] at cmd
      cases cmd
      exact .inl ⟨_, List.mem_append_right _ List.mem_cons_self⟩
    · right
      intro c hc
      cases hc
      exact hm
  · intro ctx ids hp j hj
    obtain ⟨patch, hm⟩ := h.patched ctx ids hp j hj
    exact ⟨patch, List.mem_append_left _ hm⟩
  · intro ctx ids hp
    obtain ⟨ws, back, _, during⟩ := h.logging ctx ids hp
    obtain ⟨all, written⟩ := during _ cur
    refine ⟨ws, back, by simp, ?_⟩
    intro c hc
    cases hc
    refine ⟨by simpa using all, ?_⟩
    simp [written, Prog.writes_of_code cmd]
  · intro hp
    rw [show x.pc = .done from hp] at cmd
    cases cmd

theorem passed (h : Contending held db x) (hI : LeasedIffDispatched db)
    (cmd : x.pc.code = .sql st next) (cur : x.cursor = some ⟨r :: rest, affected⟩)
    (why : st.recheck (sqlMachine.view db x.writes) r = false ∨ st.skipLocked = true) :
    Contending held db { x with cursor := some ⟨rest, affected⟩ } := by
  refine { h with locked := h.locked.passed cmd why, dispatching := h.dispatching.passed cmd cur why,
                  reaping := h.reaping.passed cmd cur why, patching := ?_, logging := ?_ }
  · intro ctx ids hp j hj
    by_cases hd : ∃ patch, .patchJob j patch ∈ x.writes
    · exact .inl hd
    have wait := (h.patching ctx ids hp j hj).resolve_left hd
    right
    intro c hc
    cases hc
    rcases List.mem_cons.mp (wait _ cur) with rfl | hm
    · obtain ⟨q, hq, hs⟩ := Option.map_eq_some_iff.mp (h.unpatched hI hp hj hd)
      have key : q.jobId = j := Table.lookup_key hq
      rw [show x.pc = .reaperJobs ctx ids from hp] at cmd
      cases cmd
      simp [Sql.updateJobs, hq, hs, key, hj] at why
    · exact hm
  · intro ctx ids hp
    rw [show x.pc = .reaperTransitions ctx ids from hp] at cmd
    cases cmd
    rcases why with why | why <;> cases why

/-- How a transaction comes to its end. -/
theorem leads_done {p : Prog} (led : p.Leads rows .done) (hp : p.leaderless = true) :
    (∃ ctx w b, p = .dispatchSelect ctx w b) ∨ (∃ ctx now b, p = .reaperSelect ctx now b) ∨
      (∃ g, p = .dispatchTransition g) ∨ ∃ ctx ids, p = .reaperTransitions ctx ids := by
  cases led with
  | queueEmpty => exact .inl ⟨_, _, _, rfl⟩
  | nothingExpired => exact .inr (.inl ⟨_, _, _, rfl⟩)
  | dispatchTransition => exact .inr (.inr (.inl ⟨_, rfl⟩))
  | reaperTransitions => exact .inr (.inr (.inr ⟨_, _, rfl⟩))
  | _ => cases hp

theorem turns_nothing : Turns held db [] :=
  fun _ _ _ _ => .kept rfl rfl rfl

/-- A reaper at its end has logged all of its jobs. -/
theorem turns_logged (h : Contending held db x) {ctx : Ctx} {ids : List JobId}
    (hp : x.pc = .reaperTransitions ctx ids) (cmd : x.pc.code = .sql st next) {c : Cursor Row}
    (cur : x.cursor = some c) (exhausted : st.exhausted c = true) : Turns held db x.writes := by
  obtain ⟨ws, back, _, during⟩ := h.logging ctx ids hp
  obtain ⟨all, written⟩ := during c cur
  have reaps : x.pc.reaps = some ids := by rw [hp]; rfl
  have reaped : x.pc.reaped = some ids := by rw [hp]; rfl
  rw [hp] at cmd written
  cases cmd
  have ended : c.remaining = [] := by simpa [Stmt.exhausted, Sql.insert] using exhausted
  rw [ended, List.append_nil] at all
  have parts : x.writes = ws ++ ids.map fun j =>
      .insertTransition (JobEvent.log ctx j (some .dispatched) .pending) := by
    rw [written, all]
    exact congrArg (ws ++ ·) (List.append_nil _)
  -- the rows are the last writes: what else the reaper wrote came before them
  have earlier : ∀ w ∈ x.writes, (∀ row, w ≠ .insertTransition row) → w ∈ ws := by
    intro w hw hn
    rw [parts] at hw
    rcases List.mem_append.mp hw with hw | hw
    · exact hw
    · obtain ⟨j, _, rfl⟩ := List.mem_map.mp hw
      exact absurd rfl (hn _)
  rw [parts]
  apply turns_reaped ctx back
  · intro w hw
    exact (h.reaping.own ids reaps w (parts ▸ List.mem_append_left _ hw)).1
  · exact h.reaping.distinct ids reaps
  · exact h.reaping.leased ids reaps
  · intro j hj
    exact earlier _ (h.reaping.deleted ids reaped j hj) (by simp)
  · intro j hj
    obtain ⟨patch, hm⟩ := h.patched ctx ids (.inr hp) j hj
    exact ⟨patch, earlier _ hm (by simp)⟩

theorem close (h : Contending held db x) (cmd : x.pc.code = .sql st next) {c : Cursor Row}
    (cur : x.cursor = some c) (exhausted : st.exhausted c = true) :
    Contending held db { x with pc := next c.affected, cursor := none } := by
  have led := Prog.leads cmd c.affected
  have back : ∀ ids, (next c.affected).reaps = some ids → ∀ w ∈ x.writes, w.handsBack = true := by
    intro ids hp w hw
    rcases reaps_leads led hp with hq | ⟨ctx, now, b, hq, _⟩
    · refine h.back ids hq ?_ w hw
      intro ctx hr
      rw [hr] at cmd
      cases cmd
      cases hp
    · rw [(h.reaping.finding ctx now b hq).1] at hw
      cases hw
  refine ⟨h.locked.close cmd cur exhausted, h.dispatching.close cmd cur exhausted,
    h.reaping.close cmd cur exhausted, leaderless_leads led h.leaderless, fun ids hp _ => back ids hp,
    ?_, ?_, ?_, ?_⟩
  · intro ctx ids _ j _
    right
    intro c hc
    cases hc
  · intro ctx ids hp j hj
    rcases hp with hp | hp
    · rw [show next c.affected = .reaperHistory ctx ids from hp] at led
      have hq := leads_reaped.1 led
      rcases h.patching ctx ids hq j hj with patched | wait
      · exact patched
      have hm := wait c cur
      rw [hq] at cmd
      cases cmd
      have ended : c.remaining = [] := by simpa [Stmt.exhausted, Sql.updateJobs] using exhausted
      rw [ended] at hm
      cases hm
    · rw [show next c.affected = .reaperTransitions ctx ids from hp] at led
      exact h.patched ctx ids (.inl (leads_reaped.2 led)) j hj
  · intro ctx ids hp
    refine ⟨x.writes, back ids (by rw [show next c.affected = _ from hp]; rfl), fun _ => rfl, ?_⟩
    intro c hc
    cases hc
  · intro hp
    rw [show next c.affected = .done from hp] at led
    rcases leads_done led h.leaderless with ⟨ctx, w, b, hq⟩ | ⟨ctx, now, b, hq⟩ | ⟨g, hq⟩ |
      ⟨ctx, ids, hq⟩
    · rw [(h.dispatching.selecting ctx w b hq).1]
      exact turns_nothing
    · rw [(h.reaping.finding ctx now b hq).1]
      exact turns_nothing
    · obtain ⟨locked, pending, written⟩ := h.dispatching.written hq cmd cur exhausted
      rw [written]
      exact turns_dispatched locked pending
    · exact h.turns_logged hq cmd cur exhausted

theorem call (h : Contending held db x) {f : Env → Env × Prog} (cmd : x.pc.code = .call f)
    (e : Env) : e ≤ (f e).1 ∧ Contending held db { x with pc := (f e).2 } := by
  obtain ⟨le, locked⟩ := h.locked.call cmd e
  obtain ⟨leaderless, going⟩ := leaderless_reads (Prog.reads cmd e)
  obtain ⟨none, _⟩ := reaps_reads (Prog.reads cmd e)
  have other : ∀ p : Prog, p.reaps ≠ .none → (f e).2 ≠ p := by
    rintro _ hp rfl
    exact hp none
  refine ⟨le, locked, h.dispatching.call cmd e, .call cmd e, leaderless, ?_, ?_, ?_, ?_, ?_⟩
  · intro ids hp
    rw [none] at hp
    cases hp
  · intro ctx ids hp
    exact absurd hp (other _ (by simp [Prog.reaps]))
  · intro ctx ids hp
    rcases hp with hp | hp <;> exact absurd hp (other _ (by simp [Prog.reaps]))
  · intro ctx ids hp
    exact absurd hp (other _ (by simp [Prog.reaps]))
  · intro hp
    exact absurd hp going

theorem turns (h : Contending held db x) (cmd : x.pc.code = .finish) : Turns held db x.writes := by
  apply h.ended
  cases hp : x.pc with
  | done => rfl
  | _ =>
    rw [hp] at cmd
    cases cmd

end Contending

def contendOutline : Outline sqlMachine sqlProtection where
  starts p := p.contends = true
  allowed _ _ := True
  I db _ := LeasedIffDispatched db
  A held db _ x := Contending held db x
  guarded h := h.locked.writes
  grow hg h := h.stable hg fun k _ => sqlProtection.refl k _
  stable h _ _ agree := h.stable (fun _ hk => hk) agree
  later hI _ := hI
  start hp contends _ := .start hp contends
  scan hI h cmd idle perm := h.scan hI cmd idle perm
  violated _ h _ _ _ := h.violated
  taken _ h _ cmd cur _ _ recheck := h.taken cmd cur recheck
  passed hI h cmd cur why := h.passed hI cmd cur why
  close _ h cmd cur _ exhausted := h.close cmd cur exhausted
  call _ h cmd := h.call cmd _
  commit hI h cmd := hI.turned ((h.turns cmd).now hI)

structure AllPending (s : SqlStore) : Prop where
  pending : ∀ r ∈ s.db.jobs.rows, r.status = .pending
  unleased : s.db.leases.rows = []
  idle : ∀ t, s.txn t = none

def change (j : JobId) (e : Event SqlStore SqlLabel) :
    Option (Option JobStatus × Option JobStatus) :=
  if e.before.db.statusOf j = e.after.db.statusOf j then none
  else some (e.before.db.statusOf j, e.after.db.statusOf j)

def changes (j : JobId) (es : List (Event SqlStore SqlLabel)) :
    List (Option JobStatus × Option JobStatus) := es.filterMap (change j)

/-- A dispatch, a reap, a dispatch, and so on. -/
def turn (i : Nat) : Option JobStatus × Option JobStatus :=
  if i % 2 = 0 then (some .pending, some .dispatched) else (some .dispatched, some .pending)

def alternating (n : Nat) : List (Option JobStatus × Option JobStatus) := (List.range n).map turn

/-- A dispatch finds the job, can lock it, and can insert its lease. -/
structure CanDispatch (s : SqlStore) (j : JobId) : Prop where
  found : .job j ∈ Sql.selectPending.scan s.db
  recheck : Sql.selectPending.recheck s.db (.job j) = true
  unlocked : s.holder (.job j) = none
  insert : ∀ row : Lease, row.jobId = j → (Sql.insertLease row).violates s.db .new = false

/-- What an abort leaves behind: the same tables, none of its locks, and a job that
it had picked ready for the next dispatch. -/
structure AbortHarmless (t : Nat) (s s' : SqlStore) : Prop where
  db : s'.db = s.db
  released : ∀ k, s'.holder k ≠ some t
  dispatchable : ∀ j, s.holder (.job j) = some t → s.db.statusOf j = some .pending → CanDispatch s' j

structure Exclusive (start : SqlStore) (es : List (Event SqlStore SqlLabel)) (s : SqlStore) :
    Prop where
  alternate : ∀ j, changes j es = alternating (changes j es).length
  logged : ∀ j, (s.db.transitionsOf j).map JobTransition.edge =
    (start.db.transitionsOf j).map JobTransition.edge ++ changes j es
  turned : ∀ e ∈ es, ∀ j, Turned j e.before.db e.after.db
  aborted : ∀ e ∈ es, ∀ t, e.action = .abort t → AbortHarmless t e.before e.after

variable {start s : SqlStore} {es : List (Event SqlStore SqlLabel)}

theorem AllPending.leasedIffDispatched (h : AllPending start) : LeasedIffDispatched start.db := by
  have status : ∀ j s, start.db.statusOf j = some s → s = .pending := by
    intro j s hs
    obtain ⟨r, hr, rfl⟩ := Option.map_eq_some_iff.mp hs
    exact h.pending r (Table.lookup_mem hr)
  have unleased : ∀ j, start.db.leases.lookup j = none := by
    intro j
    rw [Table.lookup_eq_none, h.unleased]
    intro l hl
    cases hl
  refine ⟨?_, ?_, fun j s hs => .inl (status j s hs)⟩
  · intro j hs
    cases status j _ hs
  · intro j hl
    rw [unleased j] at hl
    cases hl

/-- Each step of a run starts under the invariant and turns each job once or not at all. -/
theorem event_turned (h : Run sqlMachine.step start es s) (initial : AllPending start)
    (only : ∀ e ∈ es, ∀ t p, e.action = .start t p → p.contends = true)
    {e : Event SqlStore SqlLabel} (he : e ∈ es) :
    LeasedIffDispatched e.before.db ∧ ∀ j, Turned j e.before.db e.after.db := by
  obtain ⟨pre, hp, hs⟩ := h.prefix_of_event he
  have ok : ∀ f ∈ pre, contendOutline.Ok f := by
    intro f hf
    exact ⟨only f (hs hf), fun _ _ _ _ _ => trivial⟩
  obtain ⟨before, opened⟩ := contendOutline.sound hp initial.idle initial.leasedIffDispatched ok
  refine ⟨before, ?_⟩
  obtain ⟨u, a, v⟩ := e
  have moved : sqlMachine.Moved u a v := Machine.moved_of_step (h.event he).2
  cases moved with
  | commit hx cmd => exact ((opened _ _ hx).turns cmd).now before
  | _ => exact fun _ => .kept rfl rfl rfl

theorem alternating_succ (n : Nat) : alternating (n + 1) = alternating n ++ [turn n] := by
  simp [alternating, List.range_succ]

theorem changes_snoc (j : JobId) (es : List (Event SqlStore SqlLabel))
    (e : Event SqlStore SqlLabel) : changes j (es ++ [e]) = changes j es ++ (change j e).toList := by
  simp only [changes, List.filterMap_append, List.append_cancel_left_eq]
  cases hc : change j e <;> simp [hc]

/-- A status changes in the step that commits it, and with the row that says so. -/
theorem change_turned {j : JobId} {e : Event SqlStore SqlLabel}
    (h : Turned j e.before.db e.after.db) :
    (change j e = none ∧ e.after.db.statusOf j = e.before.db.statusOf j) ∨
      (e.before.db.statusOf j = some .pending ∧ e.after.db.statusOf j = some .dispatched ∧
        change j e = some (some .pending, some .dispatched)) ∨
      (e.before.db.statusOf j = some .dispatched ∧ e.after.db.statusOf j = some .pending ∧
        change j e = some (some .dispatched, some .pending)) := by
  cases h with
  | kept status lease rows => exact .inl ⟨by simp [change, status], status⟩
  | dispatched pending unleased status leased row =>
    exact .inr (.inl ⟨pending, status, by simp [change, pending, status]⟩)
  | reaped dispatched leased status unleased row =>
    exact .inr (.inr ⟨dispatched, status, by simp [change, dispatched, status]⟩)

/-- The changes so far alternate, and their number says what comes next. -/
theorem changes_alternate (h : Run sqlMachine.step start es s) (j : JobId)
    (fresh : start.db.statusOf j ≠ some .dispatched)
    (turned : ∀ e ∈ es, Turned j e.before.db e.after.db) :
    changes j es = alternating (changes j es).length ∧
      ((changes j es).length % 2 = 0 ↔ s.db.statusOf j ≠ some .dispatched) := by
  induction h with
  | nil => exact ⟨rfl, by simpa [changes] using fresh⟩
  | @snoc es u a v run taken ih =>
    obtain ⟨alternate, parity⟩ := ih fun e he => turned e (List.mem_append_left _ he)
    have last := turned ⟨u, a, v⟩ (List.mem_append_right _ List.mem_cons_self)
    rw [changes_snoc]
    rcases change_turned last with ⟨none, same⟩ | ⟨was, now, some⟩ | ⟨was, now, some⟩
    · rw [none, Option.toList_none, List.append_nil]
      exact ⟨alternate, by rw [parity, same]⟩
    · have even : (changes j es).length % 2 = 0 := parity.mpr (by rw [was]; simp)
      rw [some, Option.toList_some, List.length_append, List.length_singleton, alternating_succ,
        ← alternate]
      refine ⟨by simp [turn, even], ?_⟩
      rw [now]
      have odd : ((changes j es).length + 1) % 2 ≠ 0 := by omega
      simp [odd]
    · have odd : (changes j es).length % 2 ≠ 0 := fun even => parity.mp even was
      rw [some, Option.toList_some, List.length_append, List.length_singleton, alternating_succ,
        ← alternate]
      refine ⟨by simp [turn, odd], ?_⟩
      rw [now]
      have even : ((changes j es).length + 1) % 2 = 0 := by omega
      simp [even]

/-- One row of JobTransitions for each change, and no other. -/
theorem changes_logged (h : Run sqlMachine.step start es s) (j : JobId)
    (turned : ∀ e ∈ es, Turned j e.before.db e.after.db) :
    (s.db.transitionsOf j).map JobTransition.edge =
      (start.db.transitionsOf j).map JobTransition.edge ++ changes j es := by
  induction h with
  | nil => exact (List.append_nil _).symm
  | @snoc es u a v run taken ih =>
    have before := ih fun e he => turned e (List.mem_append_left _ he)
    have last := turned ⟨u, a, v⟩ (List.mem_append_right _ List.mem_cons_self)
    rw [changes_snoc, ← List.append_assoc, ← before]
    cases last with
    | kept status lease rows =>
      simp only at status rows
      simp [change, status, rows]
    | dispatched pending unleased status leased row =>
      simp only at pending status row
      obtain ⟨t, rows, edge⟩ := row
      simp [change, pending, status, rows, edge]
    | reaped dispatched leased status unleased row =>
      simp only at dispatched status row
      obtain ⟨t, rows, edge⟩ := row
      simp [change, dispatched, status, rows, edge]

/-- An abort leaves the tables alone and frees what it held. -/
theorem abort_harmless {s s' : SqlStore} {t : Nat} (h : sqlMachine.step s (.abort t) = some s')
    (hI : LeasedIffDispatched s.db) : AbortHarmless t s s' := by
  have moved : sqlMachine.Moved s (.abort t) s' := Machine.moved_of_step h
  cases moved with
  | abort opened =>
    refine ⟨rfl, ?_, ?_⟩
    · intro k
      simp only [Store.drop]
      split
      · simp
      · rename_i hk
        exact hk
    · intro j mine pending
      obtain ⟨r, hr, hs⟩ := Option.map_eq_some_iff.mp pending
      have key : r.jobId = j := Table.lookup_key hr
      refine ⟨?_, ?_, ?_, ?_⟩
      · exact List.mem_map.mpr ⟨r, List.mem_filter.mpr ⟨Table.lookup_mem hr, by simp [hs]⟩, by rw [key]⟩
      · exact decide_eq_true pending
      · simp [Store.drop, mine]
      · rintro row rfl
        have unleased := hI.unleased pending
        simp [Sql.insertLease, Store.drop, unleased, hr]

/-- Dispatches and reapers of any number of coordinators, interleaved statement by
statement and aborted at will, take each job in turns. -/
theorem exclusive (h : Run sqlMachine.step start es s) (initial : AllPending start)
    (only : ∀ e ∈ es, ∀ t p, e.action = .start t p → p.contends = true) :
    Exclusive start es s := by
  have turned : ∀ e ∈ es, ∀ j, Turned j e.before.db e.after.db :=
    fun e he => (event_turned h initial only he).2
  have fresh : ∀ j, start.db.statusOf j ≠ some .dispatched := by
    intro j hs
    obtain ⟨r, hr, hd⟩ := Option.map_eq_some_iff.mp hs
    rw [initial.pending r (Table.lookup_mem hr)] at hd
    cases hd
  refine ⟨?_, ?_, turned, ?_⟩
  · intro j
    exact (changes_alternate h j (fresh j) fun e he => turned e he j).1
  · intro j
    exact changes_logged h j fun e he => turned e he j
  · intro e he t ha
    apply abort_harmless
    · rw [← ha]
      exact (h.event he).2
    · exact (event_turned h initial only he).1

def oneJob : SqlStore :=
  { migratedStore 0 with
    db := { Db.migrated with
      jobs := Table.empty.insert
        { jobId := 1, idempotencyKey := "k", payload := .obj [], status := .pending, result := none,
          createdAt := 0, updatedAt := 0 } } }

/-- A second dispatch skips the row of the first, which aborts; then the job is
dispatched, reaped and dispatched. -/
def contendRun : List SqlLabel :=
  [.start 1 (.dispatchSelect (.quiet "c1" 1) "w1" false), .scan 1 [.job 1], .row 1 [],
    .start 2 (.dispatchSelect (.quiet "c2" 1) "w2" true), .scan 2 [.job 1], .row 2 [], .close 2,
    .commit 2, .abort 1] ++ dispatches 3 (.quiet "c3" 2) "w3" 1 ++
    reaps 4 (.quiet "c2" 70000) 1 1 ++ dispatches 5 (.quiet "c1" 70001) "w1" 1

theorem exclusive_contendRun : ∃ s, exec sqlMachine.step oneJob contendRun = some s ∧
    s.db.statusOf 1 = some .dispatched ∧
    (changes 1 (trace sqlMachine.step oneJob contendRun)).length = 3 ∧
    Exclusive oneJob (trace sqlMachine.step oneJob contendRun) s := by
  obtain ⟨s, hs, hp⟩ : ∃ s, exec sqlMachine.step oneJob contendRun = some s ∧
      decide (s.db.statusOf 1 = some .dispatched) = true := exec_any (by decide)
  have pending : AllPending oneJob := ⟨by decide, rfl, fun _ => rfl⟩
  have starts : ∀ e ∈ trace sqlMachine.step oneJob contendRun, (match e.action with
      | .start _ p => p.contends
      | _ => true) = true := List.all_eq_true.mp (by decide)
  refine ⟨s, hs, of_decide_eq_true hp, by decide, exclusive (run_of_exec contendRun hs) pending ?_⟩
  intro e he t p ha
  have contends := starts e he
  simpa [ha] using contends

end Dispatcher
